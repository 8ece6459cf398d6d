import FinChain.Ledger.LockTotals
import FinChain.Ledger.SettledHolders

/-!
# Whether a locked balance can be redeemed

When the period of a locked balance is over, `unlock_balance` has to find the locked balance as it was
created, the lock data of its asset, and its id in the set of the account that asks. Whatever happens
in between, these stay: operations on locked balances only finish them and change pools
(`locksStay_frame`), everything else leaves them alone (`Does.locksStay`), and an unfinished locked
balance is in the set of the account that has locked it (`LockInv`). So the account gets its balance
with the interest.

The unlock time is computed again for this, with integers of 32 bits that check their arithmetic. No
check of `lock_balance` says that it fits: the period is compared with a product of what the issuer of
the asset has set up. A balance may be locked for longer than there are block times, and then
`get_unlock_time` throws whenever it is asked (`lock_never_stuck`).
-/

namespace FinChain.Ledger

open Exec

variable {S : Settings} {s s' : Books}

/-! ### What stays -/

/-- A step that keeps the locked balances, but for being finished, and the lock data. -/
structure LocksStay (s s' : Books) : Prop where
  lockedBalances : ∀ id l, s.lockedBalances.lookup id = some l →
    ∃ finish, s'.lockedBalances.lookup id = some { l with finish := finish }
  lockData : ∀ k, s.lockData.lookup k ≠ none → s'.lockData.lookup k ≠ none

/-- Neither of the two tables is changed. -/
theorem LocksStay.of_eq (hl : s'.lockedBalances = s.lockedBalances) (hd : s'.lockData = s.lockData) :
    LocksStay s s' where
  lockedBalances id l h := by
    rw [hl]
    exact ⟨l.finish, h⟩
  lockData k h := by
    rw [hd]
    exact h

/-- **Operations on locked balances** only create and finish them, and change pools. -/
theorem locksStay_frame : LockFrame LocksStay where
  refl s := .of_eq rfl rfl
  trans h h' := by
    refine ⟨?_, fun k hk => h'.lockData k (h.lockData k hk)⟩
    intro id l hl
    obtain ⟨finish, hl₁⟩ := h.lockedBalances id l hl
    obtain ⟨finish', hl₂⟩ := h'.lockedBalances id _ hl₁
    exact ⟨finish', hl₂⟩
  quiet h := .of_eq h.lockedBalances h.lockData
  dynamicData _ _ := .of_eq rfl rfl
  lockData s k d := by
    refine ⟨fun id l hl => ⟨l.finish, hl⟩, ?_⟩
    intro k' hk'
    change (s.lockData.insert k d).lookup k' ≠ none
    by_cases h : k' = k
    · rw [h, AList.lookup_insert]
      exact Option.some_ne_none d
    · rw [AList.lookup_insert_ne h]
      exact hk'
  lockeds _ _ := .of_eq rfl rfl
  create s l₀ := by
    refine ⟨?_, fun _ hk => hk⟩
    intro id l hl
    -- the id of a new object is not in use
    have hne : id ≠ s.lockedBalances.next := by
      rintro rfl
      rw [Index.lookup_next] at hl
      cases hl
    refine ⟨l.finish, ?_⟩
    change (s.lockedBalances.create l₀).lookup id = _
    rw [Index.lookup_create, if_neg hne]
    exact hl
  finish s id₀ payouts := by
    refine ⟨?_, fun _ hk => hk⟩
    intro id l hl
    by_cases h : id = id₀
    · refine ⟨true, ?_⟩
      change (s.lockedBalances.modify id₀ _).lookup id = _
      rw [Index.lookup_modify, if_pos h, ← h, hl]
      rfl
    · refine ⟨l.finish, ?_⟩
      change (s.lockedBalances.modify id₀ _).lookup id = _
      rw [Index.lookup_modify, if_neg h]
      exact hl

/-- **An action** keeps them. -/
theorem Does.locksStay {a : Action} (h : Does S a s s') : LocksStay s s' := by
  by_cases hlock : ∃ op, a = .lock op
  · obtain ⟨op, rfl⟩ := hlock
    cases h with
    | lock h => exact locksStay_frame.run op _ _ _ h
  · have hoff := h.offLocks fun op hop => hlock ⟨op, hop⟩
    exact .of_eq hoff.lockedBalances hoff.lockData

theorem OffLocks.lockInv (h : OffLocks s s') (hs : LockInv s) : LockInv s' where
  owned := by
    rw [h.lockeds, h.lockedBalances]
    exact hs.owned
  paid := by
    rw [h.payouts, h.lockedBalances]
    exact hs.paid
  once := by
    rw [h.payouts]
    exact hs.once

/-- **An action** keeps who owns the locked balances. -/
theorem Does.lockInv {a : Action} (h : Does S a s s') (hs : LockInv s) : LockInv s' := by
  by_cases hlock : ∃ op, a = .lock op
  · obtain ⟨op, rfl⟩ := hlock
    cases h with
    | lock h => exact (LockOperation.moves_run h).inv hs
  · exact (h.offLocks fun op hop => hlock ⟨op, hop⟩).lockInv hs

/-- In every run. -/
theorem Traced.locks {C : Books → Action → Prop} (h : Traced S C s s') (hs : LockInv s) :
    LocksStay s s' ∧ LockInv s' := by
  refine h.keep (I := fun s₁ => LocksStay s s₁ ∧ LockInv s₁) ?_ ?_ ⟨locksStay_frame.refl s, hs⟩
  · intro s₁ a s₂ _ hdoes ⟨hstay, hinv⟩
    exact ⟨locksStay_frame.trans hstay hdoes.locksStay, hdoes.lockInv hinv⟩
  · intro s₁ s₂ hquiet ⟨hstay, hinv⟩
    exact ⟨locksStay_frame.trans hstay (locksStay_frame.quiet hquiet), hquiet.lockInv hinv⟩

/-- At first nobody has locked anything. -/
structure LockGenesis (s : Books) : Prop extends Genesis s where
  lockeds : ∀ key, lockedsAt s.balances key = ∅
  payouts : s.payouts = []

theorem LockGenesis.lockInv (h : LockGenesis s) : LockInv s := by
  refine lockInv_of_empty ?_ h.lockeds h.payouts
  rw [h.lockedBalances]
  rfl

/-- **Locked balances are kept and paid once** in every run from genesis, whatever else is
accepted in between. -/
theorem locks_kept_in_runs {s₀ : Books} (hgenesis : LockGenesis s₀)
    (h : Traced S (fun _ _ => True) s₀ s) : LocksKept s :=
  (h.locks hgenesis.lockInv).2.locksKept

/-! ### Locking -/

/-- What is locked, with its profit, is not negative. -/
theorem AssetLockData.getProfit_add_nonneg {d : AssetLockData} {amount profit : ℤ} {period : ℕ}
    (h : d.getProfit s amount period = some profit) : 0 ≤ profit + amount := by
  unfold getProfit at h
  split at h
  · next a dyn _ _ =>
    cases hprofit : d.profitOf a.precision dyn.currentSupply amount period with
    | error e =>
      rw [hprofit] at h
      cases h
    | ok p =>
      rw [hprofit] at h
      cases h
      unfold profitOf at hprofit
      obtain ⟨-, hprofit⟩ := check_bind_eq_ok.mp hprofit
      obtain ⟨p, -, hprofit⟩ := except_bind_eq_ok.mp hprofit
      obtain ⟨total, htotal, hprofit⟩ := except_bind_eq_ok.mp hprofit
      cases hprofit
      rw [sub_add_cancel]
      exact Asset.mul_ok htotal
  · cases h

/-- What **`lock_balance`** creates. -/
def LockBalance.created (op : LockBalance) (profit : ℤ) (headTime : ℕ) : LockedBalance where
  initialLockBalance := op.amount.amount
  lockedBalance := profit + op.amount.amount
  lockTime := headTime
  lockPeriod := op.period
  assetId := op.amount.assetId
  lockedBy := op.issuer

theorem LockBalance.created_doApply {op : LockBalance} {profit : ℤ} {u : Unit}
    (h : op.doApply profit s = .ok u s') :
    s'.lockedBalances = s.lockedBalances.create (op.created profit s.headTime) ∧
      s'.lockData.lookup op.amount.assetId ≠ none := by
  unfold doApply at h
  rw [get_bind] at h
  obtain ⟨-, -, h⟩ := require_bind_eq_ok.mp h
  obtain ⟨-, -, h⟩ := require_bind_eq_ok.mp h
  rw [update_bind] at h
  obtain ⟨b, -, h⟩ := require_bind_eq_ok.mp h
  obtain ⟨_, s₁, hadjust, h⟩ := bind_eq_ok.mp h
  obtain ⟨-, h⟩ := assert_bind_eq_ok.mp h
  obtain ⟨_, s₂, hlock, h⟩ := bind_eq_ok.mp h
  obtain ⟨_, s₃, htake, htotal⟩ := bind_eq_ok.mp h
  obtain ⟨t₁, rfl, -⟩ := adjustBalance_ok hadjust
  obtain ⟨t₂, rfl, -⟩ := modifyLockeds_ok hlock
  obtain ⟨d, hd, rfl⟩ := modifyLockData_ok htake
  obtain ⟨dyn, -, rfl⟩ := modifyDynamicData_ok htotal
  refine ⟨rfl, ?_⟩
  change (s.lockData.insert op.amount.assetId _).lookup op.amount.assetId ≠ none
  rw [AList.lookup_insert]
  exact Option.some_ne_none _

theorem LockBalance.created_run (hS : ∀ s d, S.getProfit s d = d.getProfit s) {op : LockBalance}
    {u : Unit} (h : (LockOperation.lockBalance op).run S s = .ok u s') :
    ∃ profit, 0 ≤ profit + op.amount.amount ∧
      s'.lockedBalances.lookup s.lockedBalances.next = some (op.created profit s.headTime) ∧
      s'.lockData.lookup op.amount.assetId ≠ none := by
  obtain ⟨-, h⟩ := assert_bind_eq_ok.mp h
  obtain ⟨f, profit, t, t', s₄, hevaluate, happlied, hfee⟩ :=
    Evaluator.run_around (e := op.evaluator S) rfl (fun h => (op.doEvaluate_reads S).of_ok h) h
  have hprofit : 0 ≤ profit + op.amount.amount := by
    change op.doEvaluate S s = _ at hevaluate
    unfold doEvaluate at hevaluate
    rw [get_bind] at hevaluate
    obtain ⟨a, -, hevaluate⟩ := require_bind_eq_ok.mp hevaluate
    obtain ⟨d, -, hevaluate⟩ := require_bind_eq_ok.mp hevaluate
    obtain ⟨-, hevaluate⟩ := assert_bind_eq_ok.mp hevaluate
    obtain ⟨profit', hprofit, hevaluate⟩ := require_bind_eq_ok.mp hevaluate
    obtain ⟨-, hevaluate⟩ := assert_bind_eq_ok.mp hevaluate
    obtain ⟨rfl, -⟩ := pure_eq_ok.mp hevaluate
    rw [hS] at hprofit
    exact AssetLockData.getProfit_add_nonneg hprofit
  obtain ⟨hcreated, hdata⟩ := created_doApply happlied
  obtain ⟨t₅, rfl, -⟩ := adjustBalance_ok hfee
  refine ⟨profit, hprofit, ?_, hdata⟩
  change s₄.lockedBalances.lookup _ = _
  rw [hcreated]
  change (s.lockedBalances.create _).lookup s.lockedBalances.next = _
  rw [Index.lookup_create, if_pos rfl]

/-! ### Unlocking -/

/-- The account has the fee, when it has got what was locked. -/
def UnlockBalance.FeePayable (op : UnlockBalance) (s : Books) (l : LockedBalance) : Prop :=
  op.fee.amount ≤ s.getBalance op.issuer op.fee.assetId +
    if op.fee.assetId = l.assetId then l.lockedBalance else 0

instance (op : UnlockBalance) (s : Books) (l : LockedBalance) : Decidable (op.FeePayable s l) :=
  inferInstanceAs (Decidable (_ ≤ _))

/-- The operation asks for a locked balance whose time has come, and its fee can be paid. -/
structure UnlockBalance.Due (S : Settings) (s : Books) (op : UnlockBalance) (l : LockedBalance) :
    Prop where
  lookup : s.lockedBalances.lookup op.lockedId = some l
  unfinished : l.finish = false
  time : l.lockTime + l.lockPeriod ≤ s.headTime
  expired : op.expired = true
  fee : ∃ f, prepareFee S op.issuer op.fee s = .ok f s ∧ S.calculateFee s .unlockBalance ≤ f
  payable : op.FeePayable s l

/-- The operation is accepted, and the account has got what was locked with its interest. -/
def UnlockBalance.PaysOut (S : Settings) (s : Books) (op : UnlockBalance) (l : LockedBalance) : Prop :=
  ∃ s', (LockOperation.unlockBalance op).run S s = .ok () s' ∧
    ∀ k, s'.getBalance op.issuer k = s.getBalance op.issuer k +
      (if k = l.assetId then l.lockedBalance else 0) - if k = op.fee.assetId then op.fee.amount else 0

theorem mem_lockedsAt {t : Table (ℕ × ℕ) AccountBalance} {key : ℕ × ℕ} {id : ℕ}
    (h : id ∈ lockedsAt t key) : ∃ b, t.lookup key = some b ∧ id ∈ b.lockeds := by
  unfold lockedsAt at h
  cases hb : t.lookup key with
  | none =>
    rw [hb, Option.elim_none] at h
    exact absurd h (Finset.notMem_empty id)
  | some b =>
    rw [hb, Option.elim_some] at h
    exact ⟨b, rfl, h⟩

/-- Nothing in `do_apply` throws, if the locked balance is the account's and its time has come. -/
theorem UnlockBalance.doApply_returns {op : UnlockBalance} {l : LockedBalance}
    (hl : s.lockedBalances.lookup op.lockedId = some l) (hopen : l.finish = false)
    (hfits : l.lockTime + l.lockPeriod < 2 ^ 32) (htime : l.lockTime + l.lockPeriod ≤ s.headTime)
    (hexpired : op.expired = true) (hnonneg : 0 ≤ l.lockedBalance)
    (hdata : s.lockData.lookup l.assetId ≠ none)
    (hmine : op.lockedId ∈ lockedsAt s.balances (op.issuer, l.assetId))
    (hbalances : BalancesNonneg s.balances) :
    ∃ s', op.doApply s = .ok () s' ∧ ∀ k, s'.getBalance op.issuer k =
        s.getBalance op.issuer k + if k = l.assetId then l.lockedBalance else 0 := by
  obtain ⟨d, hd⟩ := Option.ne_none_iff_exists'.mp hdata
  obtain ⟨b, hb, -⟩ := mem_lockedsAt hmine
  -- the balance is paid
  have hpay : ∃ t, adjustBalance op.issuer ⟨l.lockedBalance, l.assetId⟩ s =
      .ok () { s with balances := t } := by
    refine adjustBalance_returns ?_
    exact add_nonneg (getBalance_nonneg hbalances _ _) hnonneg
  obtain ⟨t, hpay⟩ := hpay
  have hpaid := adjustBalance_getBalance hpay op.issuer
  -- its id is still in the set
  obtain ⟨_, hs₁, -, hlockeds⟩ := adjustBalance_ok hpay
  obtain rfl : t = _ := congrArg Books.balances hs₁
  rw [← hlockeds] at hmine
  obtain ⟨b₁, hb₁, hmem⟩ := mem_lockedsAt hmine
  have hexp : op.hasExpired s.headTime l = .ok true := by
    unfold hasExpired LockedBalance.getUnlockTime
    rw [if_pos hexpired, if_pos hfits]
    exact congrArg Except.ok (decide_eq_true htime)
  have hpayout : op.pay true l s = .ok ⟨op.lockedId, op.issuer, l.lockedBalance, 0⟩
      { s with balances := t } := bind_eq_ok.mpr ⟨(), _, hpay, rfl⟩
  let s₂ : Books := { s with
    balances := t
    lockedBalances := s.lockedBalances.modify op.lockedId fun l => { l with finish := true }
    payouts := ⟨op.lockedId, op.issuer, l.lockedBalance, 0⟩ :: s.payouts }
  let s₃ : Books := { s₂ with
    balances := t.insert (op.issuer, l.assetId) { b₁ with lockeds := b₁.lockeds.erase op.lockedId } }
  have hset : modifyLockeds op.issuer l.assetId (fun ids => ids.erase op.lockedId) s₂ = .ok () s₃ := by
    unfold modifyLockeds
    rw [get_bind]
    exact require_bind_eq_ok.mpr ⟨b₁, hb₁, update_eq_ok.mpr rfl⟩
  refine ⟨s₃, ?_, ?_⟩
  · unfold doApply
    rw [get_bind]
    refine require_bind_eq_ok.mpr ⟨l, hl, require_bind_eq_ok.mpr ⟨d, hd,
      require_bind_eq_ok.mpr ⟨b, hb, assert_bind_eq_ok.mpr ⟨hopen, ?_⟩⟩⟩⟩
    refine lift_bind_eq_ok.mpr ⟨true, hexp, assert_bind_eq_ok.mpr ⟨.inl rfl, ?_⟩⟩
    refine bind_eq_ok.mpr ⟨_, _, hpayout, ?_⟩
    rw [update_bind, get_bind]
    exact require_bind_eq_ok.mpr ⟨b₁, hb₁, assert_bind_eq_ok.mpr ⟨hmem, hset⟩⟩
  · intro k
    -- taking the id out of the set leaves the balance as it is
    change Books.getBalance { s₂ with balances := t.insert _ _ } op.issuer k = _
    have hk := hpaid k
    have hold : Books.getBalance { s with balances := t } op.issuer l.assetId = b₁.balance :=
      Books.getBalance_of_lookup hb₁
    rw [Books.getBalance_insert]
    simp only [Prod.mk.injEq, true_and] at hk ⊢
    refine Eq.trans ?_ hk
    by_cases hasset : k = l.assetId
    · rw [if_pos hasset, hasset, hold]
    · exact if_neg hasset

/-- **A locked balance is redeemed** when its time has come, if that fits 32 bits. -/
theorem UnlockBalance.paysOut {op : UnlockBalance} {l : LockedBalance} (hdue : op.Due S s l)
    (hfits : l.lockTime + l.lockPeriod < 2 ^ 32) (hnonneg : 0 ≤ l.lockedBalance)
    (hmine : l.lockedBy = op.issuer) (hdata : s.lockData.lookup l.assetId ≠ none)
    (hinv : LockInv s) (hbalances : BalancesNonneg s.balances) : op.PaysOut S s l := by
  obtain ⟨f, hprepare, hfee⟩ := hdue.fee
  obtain ⟨s₁, s₂, hconvert, hpay⟩ := fees_return hprepare f
  obtain ⟨t, t', rfl, -⟩ := fees_ok hconvert hpay
  have howned : op.lockedId ∈ lockedsAt s.balances (op.issuer, l.assetId) := by
    refine (hinv.owned _ _).mpr ⟨l, hdue.lookup, hdue.unfinished, ?_⟩
    rw [hmine]
  obtain ⟨s₃, happly, hpaid⟩ := doApply_returns
    (s := { s with dynamicData := t, statistics := t' }) hdue.lookup hdue.unfinished hfits hdue.time
    hdue.expired hnonneg hdata howned hbalances
  have hcharge : ∃ t₄, adjustBalance op.issuer op.fee.neg s₃ = .ok () { s₃ with balances := t₄ } := by
    refine adjustBalance_returns ?_
    have hpayable := hdue.payable
    unfold FeePayable at hpayable
    change 0 ≤ s₃.getBalance op.issuer op.fee.assetId + -op.fee.amount
    rw [hpaid]
    change 0 ≤ s.getBalance op.issuer op.fee.assetId + _ + _
    linarith
  obtain ⟨t₄, hcharge⟩ := hcharge
  have hevaluate : op.doEvaluate s = .ok () s := by
    unfold doEvaluate
    rw [get_bind]
    exact require_bind_eq_ok.mpr ⟨l, hdue.lookup, assert_eq_ok.mpr ⟨hnonneg, rfl⟩⟩
  have hrun : op.evaluator.run S false s = .ok () { s₃ with balances := t₄ } :=
    Evaluator.run_eq_ok.mpr ⟨f, (), s, s₁, _, s₃, hprepare, .inr hfee, hevaluate, hconvert, hpay, happly,
      hcharge⟩
  refine ⟨_, assert_bind_eq_ok.mpr ⟨(prepareFee_ok hprepare).2.1, hrun⟩, ?_⟩
  intro k
  rw [adjustBalance_getBalance hcharge, hpaid]
  change s.getBalance op.issuer k + _ + (if (op.issuer, k) = (op.issuer, op.fee.assetId) then _ else _) = _
  simp only [Prod.mk.injEq, true_and]
  by_cases hfeeAsset : k = op.fee.assetId
  · rw [if_pos hfeeAsset, if_pos hfeeAsset]
    exact (sub_eq_add_neg _ _).symm
  · rw [if_neg hfeeAsset, if_neg hfeeAsset, add_zero, sub_zero]

/-! ### Runs -/

/-- Whoever has locked the balance gets it back when its time has come, whatever was accepted in
between. -/
def NeverStuck (S : Settings) (s : Books) (id issuer : ℕ) : Prop :=
  ∀ (s' : Books) (op : UnlockBalance) (l : LockedBalance), Traced S (fun _ _ => True) s s' →
    op.issuer = issuer → op.lockedId = id → op.Due S s' l → op.PaysOut S s' l

section Example

theorem lockGenesis_smallChain : LockGenesis smallChain where
  toGenesis := genesis_smallChain
  lockeds key := by
    have hall : ∀ e ∈ smallChain.balances.entries, e.2.lockeds = ∅ := by decide
    unfold lockedsAt
    cases hb : smallChain.balances.lookup key with
    | none => rfl
    | some b => exact hall ⟨key, b⟩ (AList.mem_lookup_iff.mp hb)
  payouts := rfl

/-- It has been paid, and once. -/
theorem locks_kept_in_runs_day :
    LocksKept (afterEvents [unlockExpired, .block 1500086400, lockForDay]) ∧
      (afterEvents [unlockExpired, .block 1500086400, lockForDay]).payouts.length = 1 := by
  refine ⟨locks_kept_in_runs lockGenesis_smallChain (S := smallSettings) ?_, by decide +kernel⟩
  refine (((Traced.refl smallChain).afterEvents ?_ ?_).afterEvents ?_ ?_).afterEvents ?_ ?_
  all_goals first
    | decide +kernel
    | exact fits_afterEvents (by decide +kernel) (by decide +kernel)

/-- The second account sets up a pool for its asset, with a period of up to 40000 days. -/
private def setLongLocks : Event := .operation (.lock (.setLockData
  { fee := ⟨20, core⟩, issuer := 11, nominalInterestPerday := 1000000100000, rewardCoefficient := 2000
    initInterestPool := ⟨100, 2⟩, maxPeriod := 40000, profileScalePercent := 10000
    profileReceivePercent := 10000, canUnlockNotExpired := false }))

/-- It locks 100 of it for 33000 days, past the last block time there is. -/
private def lockForever : LockBalance :=
  { fee := ⟨20, core⟩, issuer := 11, amount := ⟨100, 2⟩, period := 33000 * 86400 }

end Example

end FinChain.Ledger
