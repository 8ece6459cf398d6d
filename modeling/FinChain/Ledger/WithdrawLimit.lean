import FinChain.Ledger.Events
import FinChain.Ledger.WithdrawPermission

/-!
# The limit of a period

The periods of a permission are counted from its start: the `k`-th one begins `k` periods later. What is
claimed in one of them is at most the limit. The permission itself knows of one period only, the one of
the last claim, and the invariant of the run (`LimitInv`) is about it: it is one of the periods counted
from the first start, no claim has been made after it, and what was claimed in it is not more than
`claimed_this_period`. A claim of a later period finds the whole limit, and what it moves the start to is
a period in which nothing was claimed.

That the current period is over is decided by a sum of 32-bit numbers. If the period ends beyond the range
of these the sum wraps around and the period always seems to be over, so that every claim finds the whole
limit. This is no harm to the first claim in the period.
-/

namespace FinChain.Ledger

open Exec

/-! ### One claim -/

namespace WithdrawPermission

/-- The current period ends in the range of the clock, or nothing was claimed in it. -/
def EndsInRange (p : WithdrawPermission) : Prop :=
  p.periodStartTime + p.withdrawalPeriodSec < 2 ^ 32 ∨ p.claimedThisPeriod = 0

instance (p : WithdrawPermission) : Decidable p.EndsInRange := inferInstanceAs (Decidable (_ ∨ _))

theorem available_le_limit (p : WithdrawPermission) (now : ℕ) :
    (p.availableThisPeriod now).amount ≤ p.withdrawalLimit.amount := by
  have hclaimed := p.claimedThisPeriod_nonneg
  have hlimit := p.withdrawalLimit_pos
  unfold availableThisPeriod
  split
  · exact le_rfl
  · dsimp only
    split
    · omega
    · omega

/-- **What is available** in the current period is what is left of the limit. -/
theorem available_of_current {p : WithdrawPermission} {now : ℕ} {amount : ℤ} (hp : p.EndsInRange)
    (hnow : now < p.periodStartTime + p.withdrawalPeriodSec) (hamount : 0 < amount)
    (h : amount ≤ (p.availableThisPeriod now).amount) :
    p.claimedThisPeriod + amount ≤ p.withdrawalLimit.amount := by
  rcases hp with hrange | hnone
  · have hend : timePointSec (p.periodStartTime + p.withdrawalPeriodSec) =
        p.periodStartTime + p.withdrawalPeriodSec := by
      exact_mod_cast timePointSec_of_lt hrange
    unfold availableThisPeriod at h
    rw [hend, if_neg (by omega)] at h
    dsimp only at h
    split at h
    · omega
    · omega
  · rw [hnone, zero_add]
    exact h.trans (p.available_le_limit now)

end WithdrawPermission

/-! ### Runs -/

/-- What the claims of a log take at the times from `a` on and before `b`. -/
def claimedIn (log : List Attempt) (a b : ℕ) : ℤ :=
  ((log.filter fun x => x.accepted && decide (a ≤ x.time ∧ x.time < b)).map Attempt.amount).sum

theorem claimedIn_cons (x : Attempt) (log : List Attempt) (a b : ℕ) :
    claimedIn (x :: log) a b =
      (if x.accepted = true ∧ a ≤ x.time ∧ x.time < b then x.amount else 0) + claimedIn log a b := by
  unfold claimedIn
  rw [List.filter_cons]
  by_cases h : x.accepted = true ∧ a ≤ x.time ∧ x.time < b
  · rw [if_pos h, if_pos (by simpa using h), List.map_cons, List.sum_cons]
  · rw [if_neg h, if_neg (by simpa using h), zero_add]

theorem claimedIn_eq_zero {log : List Attempt} {a b : ℕ}
    (h : ∀ x ∈ log, x.accepted = true → x.time < a) : claimedIn log a b = 0 := by
  induction log with
  | nil => rfl
  | cons x log ih =>
    rw [claimedIn_cons, ih fun y hy => h y (List.mem_cons_of_mem _ hy), add_zero, if_neg]
    rintro ⟨haccepted, hle, -⟩
    exact absurd (h x List.mem_cons_self haccepted) (not_lt.mpr hle)

/-- The start of the `k`-th period. -/
def WithdrawPermission.periodAt (p : WithdrawPermission) (k : ℕ) : ℕ :=
  p.periodStartTime + k * p.withdrawalPeriodSec

/-- What is claimed in the `k`-th period of a permission. -/
def WithdrawPermission.claimedInPeriod (p : WithdrawPermission) (log : List Attempt) (k : ℕ) : ℤ :=
  claimedIn log (p.periodAt k) (p.periodAt (k + 1))

theorem WithdrawPermission.periodAt_succ (p : WithdrawPermission) (k : ℕ) :
    p.periodAt (k + 1) = p.periodAt k + p.withdrawalPeriodSec := by
  unfold periodAt
  rw [Nat.succ_mul, Nat.add_assoc]

theorem WithdrawPermission.periodAt_mono (p : WithdrawPermission) {j k : ℕ} (h : j ≤ k) :
    p.periodAt j ≤ p.periodAt k :=
  Nat.add_le_add_left (Nat.mul_le_mul_right _ h) _

theorem WithdrawPermission.eq_of_mem_period {p : WithdrawPermission} {j k now : ℕ}
    (hj : p.periodAt j ≤ now ∧ now < p.periodAt (j + 1))
    (hk : p.periodAt k ≤ now ∧ now < p.periodAt (k + 1)) : j = k := by
  rcases lt_trichotomy j k with hlt | rfl | hlt
  · exact absurd (hj.2.trans_le (p.periodAt_mono hlt)) (not_lt.mpr hk.1)
  · rfl
  · exact absurd (hk.2.trans_le (p.periodAt_mono hlt)) (not_lt.mpr hj.1)

/-- A claim in the `j`-th period. -/
theorem WithdrawPermission.claimedInPeriod_cons {p : WithdrawPermission} {a : Attempt} {j : ℕ}
    (ha : a.accepted = true) (hj : p.periodAt j ≤ a.time ∧ a.time < p.periodAt (j + 1))
    (log : List Attempt) (k : ℕ) : p.claimedInPeriod (a :: log) k =
      (if k = j then a.amount else 0) + p.claimedInPeriod log k := by
  unfold claimedInPeriod
  rw [claimedIn_cons]
  congr 1
  refine if_congr ⟨?_, ?_⟩ rfl rfl
  · rintro ⟨-, hk⟩
    exact eq_of_mem_period hk hj
  · rintro rfl
    exact ⟨ha, hj⟩

/-- What a run from a permission `p` has made of it, whose current period is the `j`-th one. -/
structure LimitInv (id : ℕ) (p : WithdrawPermission) (s : WithdrawBooks) (log : List Attempt)
    (q : WithdrawPermission) (j : ℕ) : Prop where
  lookup : s.permissions.lookup id = some q
  limit : q.withdrawalLimit = p.withdrawalLimit
  period : q.withdrawalPeriodSec = p.withdrawalPeriodSec
  clock : s.books.headTime < 2 ^ 32
  start : q.periodStartTime = p.periodAt j
  begun : j = 0 ∨ q.periodStartTime ≤ s.books.headTime
  past : ∀ x ∈ log, x.accepted = true → x.time < p.periodAt (j + 1)
  asset : ∀ x ∈ log, x.accepted = true →
    x.op.amountToWithdraw.assetId = p.withdrawalLimit.assetId
  current : p.claimedInPeriod log j ≤ q.claimedThisPeriod
  limited : ∀ k, p.claimedInPeriod log k ≤ p.withdrawalLimit.amount

namespace LimitInv

variable {S : Settings} {id : ℕ} {p q : WithdrawPermission} {s s' : WithdrawBooks}
  {log : List Attempt} {j : ℕ}

theorem start_run (hp : s.permissions.lookup id = some p) (hclock : s.books.headTime < 2 ^ 32) :
    LimitInv id p s [] p 0 where
  lookup := hp
  limit := rfl
  period := rfl
  clock := hclock
  start := by rw [WithdrawPermission.periodAt, zero_mul, add_zero]
  begun := .inl rfl
  past x hx := absurd hx List.not_mem_nil
  asset x hx := absurd hx List.not_mem_nil
  current := p.claimedThisPeriod_nonneg
  limited _ := p.withdrawalLimit_pos.le

theorem beside (h : LimitInv id p s log q j) (hstep : BesideClaims id s s') :
    LimitInv id p s' log q j where
  lookup := hstep.permission.trans h.lookup
  limit := h.limit
  period := h.period
  clock := hstep.clock
  start := h.start
  begun := h.begun.imp_right fun hle => hle.trans hstep.headTime
  past := h.past
  asset := h.asset
  current := h.current
  limited := h.limited

/-- The times of a log that only got attempts that were refused. -/
theorem refused (h : LimitInv id p s log q j) {a : Attempt} (ha : a.accepted = false) :
    LimitInv id p s (a :: log) q j := by
  have hsum : ∀ k, p.claimedInPeriod (a :: log) k = p.claimedInPeriod log k := by
    intro k
    unfold WithdrawPermission.claimedInPeriod
    rw [claimedIn_cons, ha, if_neg (by simp), zero_add]
  have hlog : ∀ {x}, x ∈ a :: log → x.accepted = true → x ∈ log := by
    intro x hx haccepted
    refine List.mem_of_ne_of_mem ?_ hx
    rintro rfl
    rw [ha] at haccepted
    cases haccepted
  refine { h with past := ?_, asset := ?_, current := ?_, limited := ?_ }
  · intro x hx haccepted
    exact h.past x (hlog hx haccepted) haccepted
  · intro x hx haccepted
    exact h.asset x (hlog hx haccepted) haccepted
  · rw [hsum]
    exact h.current
  · intro k
    rw [hsum]
    exact h.limited k

theorem start_le (h : LimitInv id p s log q j) (hstarted : p.periodStartTime ≤ s.books.headTime) :
    q.periodStartTime ≤ s.books.headTime := by
  rcases h.begun with rfl | hbegun
  · rw [h.start, WithdrawPermission.periodAt, zero_mul, add_zero]
    exact hstarted
  · exact hbegun

/-- An accepted claim. The start is moved to the period of the claim, which is the current one or one in
which nothing was claimed. -/
theorem accepted (h : LimitInv id p s log q j) {op : WithdrawPermissionClaim} {skip : Bool}
    (hid : op.withdrawPermission = id) (hstep : (op.evaluator S).run S skip s = .ok () s')
    (hstarted : p.periodStartTime ≤ s.books.headTime) (hrange : q.EndsInRange) :
    ∃ q' j', LimitInv id p s' (⟨s, op, skip, true⟩ :: log) q' j' := by
  obtain ⟨⟨q₀, hpermitted⟩, htime, hpermissions⟩ := WithdrawPermissionClaim.run_ok hstep
  have hlookup := hpermitted.permission
  have hpos := op.amountToWithdraw_pos
  have havailable := hpermitted.available
  rw [hid, h.lookup] at hlookup
  obtain rfl : q = q₀ := Option.some.inj hlookup
  have hbegun := h.start_le hstarted
  have hstart := q.claim_periodStartTime hpos hbegun h.clock
  have hlast := q.mem_last_period hbegun
  have hperiods := q.periods_of_le hbegun
  generalize (s.books.headTime - q.periodStartTime) / q.withdrawalPeriodSec = d at hstart hlast hperiods
  have hperiod : q.periodStartTime + d * q.withdrawalPeriodSec = p.periodAt (j + d) := by
    rw [h.start, h.period, WithdrawPermission.periodAt, Nat.add_assoc, ← Nat.add_mul]
    rfl
  rw [hperiod] at hstart
  have hmem : p.periodAt (j + d) ≤ s.books.headTime ∧ s.books.headTime < p.periodAt (j + d + 1) := by
    rw [p.periodAt_succ, ← hperiod, ← h.period]
    exact hlast
  have hcons := p.claimedInPeriod_cons (a := ⟨s, op, skip, true⟩) rfl hmem log
  obtain ⟨hclaimed, hlimited⟩ : p.claimedInPeriod log (j + d) + op.amountToWithdraw.amount ≤
        (q.claim s.books.headTime op.amountToWithdraw.amount hpos).claimedThisPeriod ∧
      p.claimedInPeriod log (j + d) + op.amountToWithdraw.amount ≤ p.withdrawalLimit.amount := by
    have hcurrent := h.current
    rw [q.claim_claimedThisPeriod, hperiods, ← h.limit]
    by_cases hd : d = 0
    · -- a claim of the current period
      subst hd
      rw [Nat.zero_mul, Nat.add_zero] at hlast
      have hleft := WithdrawPermission.available_of_current hrange hlast.2 hpos havailable
      rw [Nat.add_zero, if_pos Nat.cast_zero]
      constructor
      · omega
      · omega
    · -- the first claim of a later one
      have hnone : p.claimedInPeriod log (j + d) = 0 := by
        refine claimedIn_eq_zero ?_
        intro x hx haccepted
        exact (h.past x hx haccepted).trans_le (p.periodAt_mono (by omega))
      rw [hnone, zero_add, if_neg (by exact_mod_cast hd)]
      exact ⟨le_rfl, havailable.trans (q.available_le_limit _)⟩
  refine ⟨q.claim s.books.headTime op.amountToWithdraw.amount hpos, j + d, ?_, h.limit, h.period, ?_,
    hstart, ?_, ?_, ?_, ?_, ?_⟩
  · rw [hpermissions, hid, Index.lookup_modify, if_pos rfl, h.lookup]
    rfl
  · rw [htime]
    exact h.clock
  · right
    rw [hstart, htime]
    exact hmem.1
  · intro x hx haccepted
    rcases List.mem_cons.mp hx with rfl | hx
    · exact hmem.2
    · exact (h.past x hx haccepted).trans_le (p.periodAt_mono (by omega))
  · intro x hx haccepted
    rcases List.mem_cons.mp hx with rfl | hx
    · exact hpermitted.assetId.trans (by rw [h.limit])
    · exact h.asset x hx haccepted
  · rw [hcons, if_pos rfl, add_comm]
    exact hclaimed
  · intro k
    rw [hcons]
    split
    · next hk =>
      rw [hk, add_comm]
      exact hlimited
    · rw [zero_add]
      exact h.limited k

end LimitInv

theorem ClaimRun.inv {S : Settings} {id : ℕ} {p : WithdrawPermission} {s₀ s : WithdrawBooks}
    {log : List Attempt} (hrun : ClaimRun S id s₀ s log) (hp : s₀.permissions.lookup id = some p)
    (hstarted : ∀ a ∈ log, a.accepted = true → p.periodStartTime ≤ a.time)
    (hrange : ∀ a ∈ log, a.accepted = true → ∀ q, a.before.permissions.lookup id = some q →
      q.EndsInRange) : ∃ q j, LimitInv id p s log q j := by
  induction hrun with
  | start hclock => exact ⟨p, 0, .start_run hp hclock⟩
  | beside _ hstep ih =>
    obtain ⟨q, j, h⟩ := ih hstarted hrange
    exact ⟨q, j, h.beside hstep⟩
  | accepted _ hid hstep ih =>
    obtain ⟨q, j, h⟩ := ih (fun a ha => hstarted a (List.mem_cons_of_mem _ ha))
      fun a ha => hrange a (List.mem_cons_of_mem _ ha)
    exact h.accepted hid hstep (hstarted _ List.mem_cons_self rfl)
      (hrange _ List.mem_cons_self rfl q h.lookup)
  | refused _ _ _ ih =>
    obtain ⟨q, j, h⟩ := ih (fun a ha => hstarted a (List.mem_cons_of_mem _ ha))
      fun a ha => hrange a (List.mem_cons_of_mem _ ha)
    exact ⟨q, j, h.refused rfl⟩

/-- **In every period at most the limit is claimed**, all of it in the asset of the limit, if a second
claim is made only in a period that ends in the range of the clock. -/
theorem claimed_le_limit {S : Settings} {id : ℕ} {p : WithdrawPermission} {s₀ s : WithdrawBooks}
    {log : List Attempt} (hrun : ClaimRun S id s₀ s log) (hp : s₀.permissions.lookup id = some p)
    (hstarted : ∀ a ∈ log, a.accepted = true → p.periodStartTime ≤ a.time)
    (hrange : ∀ a ∈ log, a.accepted = true → ∀ q, a.before.permissions.lookup id = some q →
      q.EndsInRange) :
    (∀ k, p.claimedInPeriod log k ≤ p.withdrawalLimit.amount) ∧
      ∀ a ∈ log, a.accepted = true → a.op.amountToWithdraw.assetId = p.withdrawalLimit.assetId := by
  obtain ⟨q, j, h⟩ := hrun.inv hp hstarted hrange
  exact ⟨h.limited, h.asset⟩

/-! ### An example -/

/-- The first account of the small chain lets the second one withdraw 100 of core in every period. -/
def smallPermission (start period : ℕ) (hstart : start < 2 ^ 32) (hperiod : 0 < period) :
    WithdrawPermissionCreate where
  fee := ⟨20, core⟩
  withdrawFromAccount := 10
  authorizedAccount := 11
  withdrawalLimit := ⟨100, core⟩
  withdrawalPeriodSec := period
  periodsUntilExpiration := 2
  periodStartTime := start
  periodStartTime_lt := hstart
  withdrawalPeriodSec_pos := hperiod

def smallClaim (amount : ℤ) (hamount : 0 < amount) : WithdrawPermissionClaim where
  fee := ⟨20, core⟩
  withdrawPermission := 0
  withdrawFromAccount := 10
  withdrawToAccount := 11
  amountToWithdraw := ⟨amount, core⟩
  amountToWithdraw_pos := hamount

/-- The books at a later time. -/
def WithdrawBooks.atTime (s : WithdrawBooks) (now : ℕ) : WithdrawBooks :=
  { s with books := { s.books with headTime := now } }

theorem BesideClaims.atTime {id : ℕ} {s : WithdrawBooks} {now : ℕ} (hle : s.books.headTime ≤ now)
    (hclock : now < 2 ^ 32) : BesideClaims id s (s.atTime now) :=
  ⟨rfl, hle, hclock⟩

/-- The permission of the small chain is made, and its first period has begun. -/
def smallGranted (period : ℕ) (hperiod : 0 < period) : WithdrawBooks :=
  (final ((smallPermission 1500000100 period (by decide) hperiod).evaluator.run smallSettings false)
    ⟨smallChain, .empty⟩).atTime 1500000200

/-- Something is claimed. -/
def WithdrawBooks.claimed (s : WithdrawBooks) (amount : ℤ) (hamount : 0 < amount) : WithdrawBooks :=
  final (((smallClaim amount hamount).evaluator smallSettings).run smallSettings false) s

/-- The attempt to claim something. -/
def WithdrawBooks.attempt (s : WithdrawBooks) (amount : ℤ) (hamount : 0 < amount) : Attempt where
  before := s
  op := smallClaim amount hamount
  skip := false
  accepted := true

theorem ClaimRun.claimed {s₀ s : WithdrawBooks} {log : List Attempt}
    (hrun : ClaimRun smallSettings 0 s₀ s log) {amount : ℤ} (hamount : 0 < amount)
    (h : ((((smallClaim amount hamount).evaluator smallSettings).run smallSettings false).run' s) =
      some ()) :
    ClaimRun smallSettings 0 s₀ (s.claimed amount hamount) (s.attempt amount hamount :: log) :=
  hrun.accepted rfl (ok_final_of_run' h)

/-- In an hour 60 are claimed, and then 40. -/
theorem claimed_le_limit_hour :
    let s := smallGranted 3600 (by decide)
    let p := (smallPermission 1500000100 3600 (by decide) (by decide)).permission
    ∀ k, p.claimedInPeriod [(s.claimed 60 (by decide)).attempt 40 (by decide),
      s.attempt 60 (by decide)] k ≤ 100 := by
  intro s p
  have hrun : ClaimRun smallSettings 0 s _ _ :=
    (ClaimRun.claimed (.start (by decide +kernel)) (by decide : (0 : ℤ) < 60)
      (by decide +kernel)).claimed (by decide : (0 : ℤ) < 40) (by decide +kernel)
  have hrange : ∀ a ∈ [(s.claimed 60 (by decide)).attempt 40 (by decide), s.attempt 60 (by decide)],
      (a.before.permissions.lookup 0).all (decide ·.EndsInRange) = true := by decide +kernel
  refine (claimed_le_limit (p := p) hrun (by decide +kernel) (by decide +kernel) ?_).1
  intro a ha _ q hq
  have hall := hrange a ha
  rw [hq, Option.all_some] at hall
  exact of_decide_eq_true hall

/-- If the period is one of almost a century, the limit is claimed twice in it. -/
theorem not_claimed_le_limit : ¬ ∀ {S : Settings} {id : ℕ} {p : WithdrawPermission}
    {s₀ s : WithdrawBooks} {log : List Attempt}, ClaimRun S id s₀ s log →
    s₀.permissions.lookup id = some p →
    (∀ a ∈ log, a.accepted = true → p.periodStartTime ≤ a.time) →
    ∀ k, p.claimedInPeriod log k ≤ p.withdrawalLimit.amount := by
  intro hall
  have hrun : ClaimRun smallSettings 0 (smallGranted 3000000000 (by decide)) _ _ :=
    (ClaimRun.claimed (.start (by decide +kernel)) (by decide : (0 : ℤ) < 100)
      (by decide +kernel)).claimed (by decide : (0 : ℤ) < 100) (by decide +kernel)
  have hle := hall (p := (smallPermission 1500000100 3000000000 (by decide) (by decide)).permission)
    hrun (by decide +kernel) (by decide +kernel) 0
  revert hle
  decide +kernel

end FinChain.Ledger
