import FinChain.Ledger.ActionEffects

/-!
# The locked total

The dynamic data of an asset has the sum of what is locked of it, beside the locked balances
themselves. `lock_balance` adds to it. `unlock_balance` marks the locked balance as finished, on each
of its ways, and leaves the sum as it is; there is no other place that changes it.

So the sum exceeds what is locked by what has been unlocked (`LockOperation.lockExcess_run`), and it is
right only in runs in which nothing is unlocked, but for locked balances of zero.
-/

namespace FinChain.Ledger

open Exec

variable {S : Settings} {s s' : Books}

/-- By how much `locked_balance` of the dynamic data exceeds what is locked. -/
def Books.lockExcess (s : Books) : ℕ → ℤ := s.lockedTotal - lockedUp s.lockedBalances

theorem OffLocks.lockExcess (h : OffLocks s s') : s'.lockExcess = s.lockExcess := by
  unfold Books.lockExcess
  rw [h.lockedTotal, h.lockedBalances]

/-! ### Operations -/

/-- An evaluator that reads, and pays its fee in the usual way. -/
theorem lockExcess_run {ρ : Type} {e : Evaluator ρ} {skip : Bool} {d : ℕ → ℤ} {u : Unit}
    (hpay : e.payFee = payFee e.feePayer) (hread : ∀ {m s₁}, e.doEvaluate s = .ok m s₁ → s₁ = s)
    (happly : ∀ {f m s₁ s₂}, Quiet s s₁ → e.doApply f m s₁ = .ok () s₂ →
      s₂.lockExcess = s₁.lockExcess + d)
    (h : e.run S skip s = .ok u s') : s'.lockExcess = s.lockExcess + d := by
  obtain ⟨f, m, s₁, s₂, s₃, s₄, -, hevaluate, hconvert, hpaid, happlied, hfee⟩ := Evaluator.run_ok h
  obtain rfl := hread hevaluate
  rw [hpay] at hpaid
  have hquiet : Quiet s₁ s₃ :=
    quietFrame.trans (quiet_convertFee _ _ _ _ _ hconvert) (quiet_payFee _ _ _ _ _ hpaid)
  have hlast : Quiet s₄ s' := quiet_adjustBalance _ _ _ _ _ hfee
  rw [hlast.lockExcess, happly hquiet happlied, hquiet.lockExcess]

theorem LockBalance.lockExcess_doApply {op : LockBalance} {profit : ℤ} {u : Unit}
    (h : op.doApply profit s = .ok u s') : s'.lockExcess = s.lockExcess := by
  unfold doApply at h
  rw [get_bind] at h
  obtain ⟨-, -, h⟩ := require_bind_eq_ok.mp h
  obtain ⟨-, -, h⟩ := require_bind_eq_ok.mp h
  rw [update_bind] at h
  obtain ⟨b, -, h⟩ := require_bind_eq_ok.mp h
  obtain ⟨_, s₁, hadjust, h⟩ := bind_eq_ok.mp h
  obtain ⟨t₁, rfl, -⟩ := adjustBalance_ok hadjust
  obtain ⟨-, h⟩ := assert_bind_eq_ok.mp h
  obtain ⟨_, s₂, hlock, h⟩ := bind_eq_ok.mp h
  obtain ⟨t₂, rfl, -⟩ := modifyLockeds_ok hlock
  obtain ⟨_, s₃, hpool, h⟩ := bind_eq_ok.mp h
  obtain ⟨d, -, rfl⟩ := modifyLockData_ok hpool
  obtain ⟨dyn, hdyn, rfl⟩ := modifyDynamicData_ok h
  have htotal : s.lockedTotal op.amount.assetId = dyn.lockedBalance := Books.lockedTotal_of_lookup hdyn
  -- what is added to the sum is what is locked
  have hadded : Function.update s.lockedTotal op.amount.assetId
      (dyn.lockedBalance + (profit + op.amount.amount)) =
        s.lockedTotal + Asset.vec ⟨profit + op.amount.amount, op.amount.assetId⟩ := by
    funext k
    unfold Asset.vec
    by_cases hk : k = op.amount.assetId
    · rw [hk, Function.update_self, Pi.add_apply, Pi.single_eq_same, htotal]
    · rw [Function.update_of_ne hk, Pi.add_apply, Pi.single_eq_of_ne hk, add_zero]
  unfold Books.lockExcess
  rw [Books.lockedTotal_insert]
  change Function.update s.lockedTotal _ _ - lockedUp (s.lockedBalances.create _) = _
  rw [hadded, lockedUp, Index.total_create, ← lockedUp]
  change _ - (_ + Asset.vec ⟨profit + op.amount.amount, op.amount.assetId⟩) = _
  abel

/-- **`unlock_balance`** finishes a locked balance, and the sum is as before. -/
theorem UnlockBalance.lockExcess_doApply {op : UnlockBalance} {u : Unit}
    (h : op.doApply s = .ok u s') : ∃ item, s.lockedBalances.lookup op.lockedId = some item ∧
      s'.lockExcess = s.lockExcess + Asset.vec ⟨item.lockedBalance, item.assetId⟩ := by
  unfold doApply at h
  rw [get_bind] at h
  obtain ⟨item, hitem, h⟩ := require_bind_eq_ok.mp h
  obtain ⟨d, -, h⟩ := require_bind_eq_ok.mp h
  obtain ⟨-, -, h⟩ := require_bind_eq_ok.mp h
  obtain ⟨hopen, h⟩ := assert_bind_eq_ok.mp h
  obtain ⟨expired, -, h⟩ := lift_bind_eq_ok.mp h
  obtain ⟨-, h⟩ := assert_bind_eq_ok.mp h
  obtain ⟨payout, s₁, hpay, h⟩ := bind_eq_ok.mp h
  obtain ⟨-, -, t, t', rfl, -⟩ := pay_ok hpay
  rw [update_bind, get_bind] at h
  obtain ⟨b, -, h⟩ := require_bind_eq_ok.mp h
  obtain ⟨-, h⟩ := assert_bind_eq_ok.mp h
  obtain ⟨t₂, rfl, -⟩ := modifyLockeds_ok h
  refine ⟨item, hitem, ?_⟩
  unfold Books.lockExcess
  change s.lockedTotal - lockedUp (s.lockedBalances.modify op.lockedId _) = _
  rw [lockedUp, Index.total_modify _ _ hitem, hopen, ← lockedUp]
  change _ - (_ + (0 - Asset.vec ⟨item.lockedBalance, item.assetId⟩)) = _
  abel

/-- What an operation unlocks without taking it off the sum. -/
def LockOperation.unlocks (s : Books) : LockOperation → ℕ → ℤ
  | unlockBalance op => (s.lockedBalances.lookup op.lockedId).elim 0 fun item =>
      Asset.vec ⟨item.lockedBalance, item.assetId⟩
  | _ => 0

/-- **What an operation does to the excess.** -/
theorem LockOperation.lockExcess_run {op : LockOperation} {u : Unit} (h : op.run S s = .ok u s') :
    s'.lockExcess = s.lockExcess + op.unlocks s := by
  cases op with
  | setLockData op =>
    obtain ⟨-, h⟩ := assert_bind_eq_ok.mp h
    refine Ledger.lockExcess_run (e := op.evaluator) rfl (fun h => op.doEvaluate_reads.of_ok h) ?_ h
    intro f m s₁ s₂ _ happly
    change op.doApply s₁ = _ at happly
    unfold SetLockData.doApply at happly
    rw [get_bind] at happly
    obtain ⟨-, happly⟩ := assert_bind_eq_ok.mp happly
    obtain ⟨_, s₃, hpool, happly⟩ := bind_eq_ok.mp happly
    obtain rfl := update_eq_ok.mp happly
    have hquiet : Quiet s₁ s₃ :=
      keepsOk_ite (quiet_adjustBalance _ _) (quietFrame.keepsOk_pure ()) s₁ _ s₃ hpool
    change s₃.lockExcess = _
    rw [hquiet.lockExcess]
    exact (add_zero _).symm
  | lockBalance op =>
    obtain ⟨-, h⟩ := assert_bind_eq_ok.mp h
    refine Ledger.lockExcess_run (e := op.evaluator S) rfl
      (fun h => (op.doEvaluate_reads S).of_ok h) ?_ h
    intro f m s₁ s₂ _ happly
    rw [LockBalance.lockExcess_doApply happly]
    exact (add_zero _).symm
  | unlockBalance op =>
    obtain ⟨-, h⟩ := assert_bind_eq_ok.mp h
    refine Ledger.lockExcess_run (e := op.evaluator) rfl (fun h => op.doEvaluate_reads.of_ok h) ?_ h
    intro f m s₁ s₂ hquiet happly
    obtain ⟨item, hitem, hexcess⟩ := UnlockBalance.lockExcess_doApply happly
    rw [hquiet.lockedBalances] at hitem
    rw [hexcess, unlocks, hitem, Option.elim_some]
  | donationBalance op =>
    obtain ⟨-, h⟩ := assert_bind_eq_ok.mp h
    refine Ledger.lockExcess_run (e := op.evaluator) rfl (fun h => op.doEvaluate_reads.of_ok h) ?_ h
    intro f m s₁ s₂ _ happly
    change op.doApply s₁ = _ at happly
    unfold DonationBalance.doApply at happly
    rw [get_bind] at happly
    obtain ⟨-, -, happly⟩ := require_bind_eq_ok.mp happly
    obtain ⟨-, -, happly⟩ := require_bind_eq_ok.mp happly
    obtain ⟨_, s₃, hadjust, happly⟩ := bind_eq_ok.mp happly
    obtain ⟨d, -, rfl⟩ := modifyLockData_ok happly
    change s₃.lockExcess = _
    rw [(quiet_adjustBalance _ _ _ _ _ hadjust).lockExcess]
    exact (add_zero _).symm

/-! ### Runs -/

/-- The action unlocks nothing, or a locked balance of zero. -/
def Action.UnlocksNothing (s : Books) : Action → Prop
  | lock (.unlockBalance op) => ∀ item, s.lockedBalances.lookup op.lockedId = some item →
      item.lockedBalance = 0
  | _ => True

/-- **One action keeps the excess.** -/
theorem Does.lockExcess {a : Action} (hC : a.UnlocksNothing s) (h : Does S a s s') :
    s'.lockExcess = s.lockExcess := by
  by_cases hlock : ∃ op, a = .lock op
  · obtain ⟨op, rfl⟩ := hlock
    cases h with
    | lock h =>
      have hnone : op.unlocks s = 0 := by
        cases op with
        | unlockBalance op =>
          change (s.lockedBalances.lookup op.lockedId).elim 0 _ = (0 : ℕ → ℤ)
          cases hitem : s.lockedBalances.lookup op.lockedId with
          | none => rfl
          | some item => exact Asset.vec_of_zero (hC item hitem)
        | setLockData | lockBalance | donationBalance => rfl
      rw [LockOperation.lockExcess_run h, hnone, add_zero]
  · exact (h.offLocks fun op hop => hlock ⟨op, hop⟩).lockExcess

/-- **The locked total is accurate** in every run that unlocks nothing but locked balances of zero. -/
theorem locked_total_accurate {s₀ : Books}
    (hexact : ∀ k, s₀.lockedTotal k = lockedUp s₀.lockedBalances k)
    (h : Traced S (fun s a => a.UnlocksNothing s) s₀ s) (k : ℕ) :
    s.lockedTotal k = lockedUp s.lockedBalances k := by
  have hzero : s₀.lockExcess = 0 := by
    unfold Books.lockExcess
    rw [sub_eq_zero]
    exact funext hexact
  have hexcess : s.lockExcess = 0 := by
    refine h.keep (I := fun s => s.lockExcess = 0) ?_ ?_ hzero
    · intro s a s' hC hdoes hs
      rw [hdoes.lockExcess hC, hs]
    · intro s s' hquiet hs
      rw [hquiet.lockExcess, hs]
  unfold Books.lockExcess at hexcess
  exact congrFun (sub_eq_zero.mp hexcess) k

section Example

/-- The second account locks 1000 of core for a day. -/
def lockForDay : Event := .operation (.lock (.lockBalance
  { fee := ⟨20, core⟩, issuer := 11, amount := ⟨1000, core⟩, period := 86400 }))

/-- It has it back. -/
def unlockExpired : Event := .operation (.lock (.unlockBalance
  { fee := ⟨20, core⟩, issuer := 11, lockedId := 0, expired := true }))

theorem lockedTotal_smallChain (k : ℕ) :
    smallChain.lockedTotal k = lockedUp smallChain.lockedBalances k := by
  have hall : ∀ e ∈ smallChain.dynamicData.entries, e.2.lockedBalance = 0 := by decide
  unfold Books.lockedTotal
  cases hd : smallChain.dynamicData.lookup k with
  | none => rfl
  | some d => exact hall ⟨k, d⟩ (AList.mem_lookup_iff.mp hd)

/-- What was locked is in the sum. -/
theorem locked_total_accurate_locked :
    (afterEvents [lockForDay]).lockedTotal core = lockedUp (afterEvents [lockForDay]).lockedBalances core ∧
      (afterEvents [lockForDay]).lockedTotal core = 1000 := by
  have hrun := run_afterEvents [] (e := lockForDay) (by decide +kernel)
  have htraced : Traced smallSettings (fun s a => a.UnlocksNothing s) smallChain
      (afterEvents [lockForDay]) := by
    refine (Traced.refl smallChain).event hrun ?_ (fits_afterEvents (by decide +kernel) (by decide +kernel))
    refine (Event.actions genesis_smallChain.solvent.toSound hrun).strengthen (I := fun _ => True) ?_
      trivial
    intro s a s' hof _ _
    refine ⟨?_, trivial⟩
    cases a with
    | lock op =>
      cases hof
      trivial
    | quiet | place | cancel | fillLimit | fillCall | position | close | bitasset | newBitasset => trivial
  exact ⟨locked_total_accurate lockedTotal_smallChain htraced core, by decide +kernel⟩

/-- What was unlocked still is. -/
theorem not_locked_total_accurate :
    ¬ ∀ (S : Settings) (s₀ s : Books), Genesis s₀ →
      (∀ k, s₀.lockedTotal k = lockedUp s₀.lockedBalances k) → Traced S (fun _ _ => True) s₀ s →
      ∀ k, s.lockedTotal k = lockedUp s.lockedBalances k := by
  intro hall
  have htraced : Traced smallSettings (fun _ _ => True) smallChain
      (afterEvents [unlockExpired, .block 1500086400, lockForDay]) := by
    refine (((Traced.refl smallChain).afterEvents ?_ ?_).afterEvents ?_ ?_).afterEvents ?_ ?_
    all_goals first
      | decide +kernel
      | exact fits_afterEvents (by decide +kernel) (by decide +kernel)
  have hexact := hall smallSettings smallChain _ genesis_smallChain lockedTotal_smallChain htraced core
  exact absurd hexact (by decide +kernel)

end Example

end FinChain.Ledger
