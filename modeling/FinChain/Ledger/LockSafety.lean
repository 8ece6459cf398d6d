import FinChain.Ledger.Assets
import FinChain.Ledger.Interest
import FinChain.Ledger.LockConservation

/-!
# Interest pools and balances are not negative

A balance is taken from only by `adjust_balance`, which refuses to make it negative. An interest
pool is taken from when a balance is locked, and then the profit is checked against it; when a
balance is unlocked before its time, the profit returns to it, so that the profits that are recorded
must not be negative either (`LockSafe`).

What is missing is a check of the amount of a donation. A negative donation takes from the pool and
pays the donor, whatever is in the pool (`not_pools_never_negative`). Without such donations pools
and balances are never negative (`pools_never_negative`).
-/

namespace FinChain.Ledger

open Exec

/-- The operations on locked balances, and transfers. -/
inductive MoneyOperation
  | lock (op : LockOperation)
  | transfer (op : Transfer)

/-- `validate`, then evaluation and application. -/
def MoneyOperation.run (S : Settings) : MoneyOperation → LedgerM Unit
  | lock op => op.run S
  | transfer op => do
    op.validate
    (op.evaluator S).run S false

/-- The operation is not a donation of a negative amount. -/
def MoneyOperation.DonatesNonneg : MoneyOperation → Prop
  | lock (.donationBalance op) => 0 ≤ op.amount.amount
  | _ => True

/-- A sequence of operations that are accepted, at their block times. -/
inductive Accepted (S : Settings) : Books → List (ℕ × MoneyOperation) → Books → Prop
  | nil (s : Books) : Accepted S s [] s
  | cons {s s₁ s₂ : Books} {time : ℕ} {op : MoneyOperation} {ops : List (ℕ × MoneyOperation)}
      (h : op.run S { s with headTime := time } = .ok () s₁) (hs : Accepted S s₁ ops s₂) :
      Accepted S s ((time, op) :: ops) s₂

/-- What is in the interest pool of an asset. -/
def Books.pool (s : Books) (assetId : ℕ) : ℤ :=
  ((s.lockData.lookup assetId).map AssetLockData.interestPool).getD 0

/-- No pool and no balance is negative. -/
structure NonNegative (s : Books) : Prop where
  pools : ∀ assetId d, s.lockData.lookup assetId = some d → 0 ≤ d.interestPool
  balances : BalancesNonneg s.balances

/-- A pool has become smaller only by the profit of the lock that the operation has created. -/
def PoolStep (op : MoneyOperation) (s s' : Books) : Prop :=
  ∀ assetId, s'.pool assetId < s.pool assetId →
    ∃ lockOp l, op = .lock (.lockBalance lockOp) ∧ assetId = lockOp.amount.assetId ∧
      s'.lockedBalances.lookup s.lockedBalances.next = some l ∧ l.assetId = assetId ∧
      s.pool assetId - s'.pool assetId = l.lockedBalance - l.initialLockBalance

/-- The invariant. -/
structure LockSafe (s : Books) : Prop extends NonNegative s where
  receive : ∀ assetId d, s.lockData.lookup assetId = some d →
    d.profileReceivePercent ≤ hundredPercent
  profits : ∀ id l, s.lockedBalances.lookup id = some l → l.initialLockBalance ≤ l.lockedBalance

/-- The invariant is about balances, pools and locks only. -/
theorem LockSafe.of_eq {s s' : Books} (h : LockSafe s) (hb : BalancesNonneg s'.balances)
    (hd : s'.lockData = s.lockData) (hl : s'.lockedBalances = s.lockedBalances) : LockSafe s' where
  pools := by
    rw [hd]
    exact h.pools
  balances := hb
  receive := by
    rw [hd]
    exact h.receive
  profits := by
    rw [hl]
    exact h.profits

/-- A step that keeps the invariant and takes nothing from a pool. -/
def Safe (s s' : Books) : Prop :=
  LockSafe s → LockSafe s' ∧ ∀ assetId, s.pool assetId ≤ s'.pool assetId

theorem Safe.trans {s s₁ s₂ : Books} (h₁ : Safe s s₁) (h₂ : Safe s₁ s₂) : Safe s s₂ := by
  intro hs
  obtain ⟨hs₁, hpool₁⟩ := h₁ hs
  obtain ⟨hs₂, hpool₂⟩ := h₂ hs₁
  exact ⟨hs₂, fun assetId => (hpool₁ assetId).trans (hpool₂ assetId)⟩

theorem Safe.of_eq {s s' : Books} (hb : BalancesNonneg s.balances → BalancesNonneg s'.balances)
    (hd : s'.lockData = s.lockData) (hl : s'.lockedBalances = s.lockedBalances) : Safe s s' := by
  intro hs
  refine ⟨hs.of_eq (hb hs.balances) hd hl, fun assetId => ?_⟩
  rw [Books.pool, Books.pool, hd]

theorem safe_adjustBalance {account : ℕ} {delta : Asset} {s s' : Books} {u : Unit}
    (h : adjustBalance account delta s = .ok u s') : Safe s s' := by
  have hnonneg := fun hs => adjustBalance_nonneg hs h
  obtain ⟨t, rfl, -⟩ := adjustBalance_ok h
  exact .of_eq hnonneg rfl rfl

/-! ### Changing a pool -/

theorem Books.pool_insert (s : Books) (assetId : ℕ) (d : AssetLockData) (assetId' : ℕ) :
    Books.pool { s with lockData := s.lockData.insert assetId d } assetId' =
      if assetId' = assetId then d.interestPool else s.pool assetId' := by
  unfold pool
  split
  · next h => rw [h, AList.lookup_insert, Option.map_some, Option.getD_some]
  · next h => rw [AList.lookup_insert_ne h]

theorem LockSafe.insert {s : Books} (h : LockSafe s) (assetId : ℕ) {d : AssetLockData}
    (hpool : 0 ≤ d.interestPool) (hreceive : d.profileReceivePercent ≤ hundredPercent) :
    LockSafe { s with lockData := s.lockData.insert assetId d } := by
  have hlookup : ∀ a d', (s.lockData.insert assetId d).lookup a = some d' →
      d' = d ∨ s.lockData.lookup a = some d' := by
    intro a d' ha
    by_cases hid : a = assetId
    · rw [hid, AList.lookup_insert] at ha
      cases ha
      exact .inl rfl
    · rw [AList.lookup_insert_ne hid] at ha
      exact .inr ha
  refine ⟨⟨fun a d' ha => ?_, h.balances⟩, fun a d' ha => ?_, h.profits⟩
  · rcases hlookup a d' ha with rfl | ha
    · exact hpool
    · exact h.pools a d' ha
  · rcases hlookup a d' ha with rfl | ha
    · exact hreceive
    · exact h.receive a d' ha

theorem safe_modifyLockData {assetId : ℕ} {x : ℤ} (hx : 0 ≤ x) {s s' : Books} {u : Unit}
    (h : modifyLockData assetId (fun d => { d with interestPool := d.interestPool + x }) s =
      .ok u s') : Safe s s' := by
  obtain ⟨d, hd, rfl⟩ := modifyLockData_ok h
  intro hs
  have hpool := hs.pools _ _ hd
  have hreceive := hs.receive _ _ hd
  constructor
  · refine hs.insert assetId ?_ hreceive
    change 0 ≤ d.interestPool + x
    omega
  · intro assetId'
    rw [Books.pool_insert]
    split
    · next hid =>
      rw [Books.pool, hid, hd]
      change d.interestPool ≤ d.interestPool + x
      omega
    · exact le_rfl

theorem safe_modifyLockeds {account assetId : ℕ} {g : Finset ℕ → Finset ℕ} {s s' : Books} {u : Unit}
    (h : modifyLockeds account assetId g s = .ok u s') : Safe s s' := by
  unfold modifyLockeds at h
  rw [get_bind] at h
  obtain ⟨b, hb, h⟩ := require_bind_eq_ok.mp h
  obtain rfl := update_eq_ok.mp h
  refine .of_eq (fun hs => ?_) rfl rfl
  have hold : 0 ≤ b.balance := hs _ _ hb
  exact hs.insert _ hold

/-! ### The operations -/

theorem SetLockData.safe_doApply {op : SetLockData} {s s' : Books} {u : Unit}
    (hpool : 0 ≤ op.initInterestPool.amount) (hreceive : op.profileReceivePercent ≤ hundredPercent)
    (hnone : s.lockData.lookup op.initInterestPool.assetId = none) (h : op.doApply s = .ok u s') :
    Safe s s' := by
  unfold doApply at h
  rw [get_bind] at h
  obtain ⟨-, h⟩ := assert_bind_eq_ok.mp h
  obtain ⟨_, s₁, hpay, h⟩ := bind_eq_ok.mp h
  obtain rfl := update_eq_ok.mp h
  have hpaid : Safe s s₁ ∧ s₁.lockData = s.lockData := by
    unfold payPool at hpay
    split at hpay
    · refine ⟨safe_adjustBalance hpay, ?_⟩
      obtain ⟨t, rfl, -⟩ := adjustBalance_ok hpay
      rfl
    · obtain ⟨-, rfl⟩ := pure_eq_ok.mp hpay
      exact ⟨.of_eq id rfl rfl, rfl⟩
  refine hpaid.1.trans fun hs => ⟨hs.insert _ hpool hreceive, fun assetId => ?_⟩
  rw [Books.pool_insert]
  split
  · next hid =>
    rw [Books.pool, hid, hpaid.2, hnone]
    exact hpool
  · exact le_rfl

theorem DonationBalance.safe_doApply {op : DonationBalance} {s s' : Books} {u : Unit}
    (hnonneg : 0 ≤ op.amount.amount) (h : op.doApply s = .ok u s') : Safe s s' := by
  unfold doApply at h
  rw [get_bind] at h
  obtain ⟨-, -, h⟩ := require_bind_eq_ok.mp h
  obtain ⟨-, -, h⟩ := require_bind_eq_ok.mp h
  obtain ⟨_, s₁, hadjust, h⟩ := bind_eq_ok.mp h
  exact (safe_adjustBalance hadjust).trans (safe_modifyLockData hnonneg h)

/-- The profit that a lock has recorded is not negative, so returning it is safe. -/
theorem UnlockBalance.safe_pay {op : UnlockBalance} {expired : Bool} {item : LockedBalance}
    {payout : Payout} {s s' : Books} (hitem : item.initialLockBalance ≤ item.lockedBalance)
    (h : op.pay expired item s = .ok payout s') : Safe s s' := by
  unfold pay at h
  split at h
  · unfold payAll at h
    obtain ⟨_, s₁, hadjust, h⟩ := bind_eq_ok.mp h
    obtain ⟨-, rfl⟩ := pure_eq_ok.mp h
    exact safe_adjustBalance hadjust
  · unfold payInitial at h
    obtain ⟨_, s₁, hadjust, h⟩ := bind_eq_ok.mp h
    obtain ⟨_, s₂, hpool, h⟩ := bind_eq_ok.mp h
    obtain ⟨-, rfl⟩ := pure_eq_ok.mp h
    exact (safe_adjustBalance hadjust).trans (safe_modifyLockData (by omega) hpool)

theorem UnlockBalance.safe_doApply {op : UnlockBalance} {s s' : Books} {u : Unit}
    (h : op.doApply s = .ok u s') : Safe s s' := by
  unfold doApply at h
  rw [get_bind] at h
  obtain ⟨item, hitem, h⟩ := require_bind_eq_ok.mp h
  obtain ⟨d, -, h⟩ := require_bind_eq_ok.mp h
  obtain ⟨-, -, h⟩ := require_bind_eq_ok.mp h
  obtain ⟨-, h⟩ := assert_bind_eq_ok.mp h
  obtain ⟨expired, -, h⟩ := lift_bind_eq_ok.mp h
  obtain ⟨-, h⟩ := assert_bind_eq_ok.mp h
  obtain ⟨payout, s₁, hpay, h⟩ := bind_eq_ok.mp h
  rw [update_bind, get_bind] at h
  obtain ⟨b, hb, h⟩ := require_bind_eq_ok.mp h
  obtain ⟨-, h⟩ := assert_bind_eq_ok.mp h
  intro hs
  have hfinish : Safe s₁
      { s₁ with
        lockedBalances := s₁.lockedBalances.modify op.lockedId fun l => { l with finish := true }
        payouts := payout :: s₁.payouts } := by
    intro hs₁
    refine ⟨⟨⟨hs₁.pools, hs₁.balances⟩, hs₁.receive, fun id l hl => ?_⟩, fun _ => le_rfl⟩
    -- being finished does not change the profit of a lock
    change (s₁.lockedBalances.modify _ _).lookup id = _ at hl
    rw [Index.lookup_modify] at hl
    split at hl
    · obtain ⟨l₀, hl₀, rfl⟩ := Option.map_eq_some_iff.mp hl
      exact hs₁.profits _ l₀ hl₀
    · exact hs₁.profits id l hl
  exact ((safe_pay (hs.profits _ _ hitem) hpay).trans (hfinish.trans (safe_modifyLockeds h))) hs

/-- Locking takes the profit from the pool and records it. -/
theorem LockBalance.doApply_step {op : LockBalance} {profit : ℤ} {s s' : Books} {u : Unit}
    (hprofit : 0 ≤ profit) (hpool : profit ≤ s.pool op.amount.assetId)
    (h : op.doApply profit s = .ok u s') (hs : LockSafe s) :
    LockSafe s' ∧
      (∀ assetId, s'.pool assetId =
        if assetId = op.amount.assetId then s.pool assetId - profit else s.pool assetId) ∧
      s'.lockedBalances.lookup s.lockedBalances.next = some
        { initialLockBalance := op.amount.amount
          lockedBalance := profit + op.amount.amount
          lockTime := s.headTime
          lockPeriod := op.period
          assetId := op.amount.assetId
          lockedBy := op.issuer } := by
  unfold doApply at h
  rw [get_bind] at h
  obtain ⟨-, -, h⟩ := require_bind_eq_ok.mp h
  obtain ⟨-, -, h⟩ := require_bind_eq_ok.mp h
  rw [update_bind] at h
  obtain ⟨b, -, h⟩ := require_bind_eq_ok.mp h
  obtain ⟨_, s₁, hadjust, h⟩ := bind_eq_ok.mp h
  obtain ⟨-, h⟩ := assert_bind_eq_ok.mp h
  obtain ⟨_, s₂, hlock, h⟩ := bind_eq_ok.mp h
  obtain ⟨_, s₃, htake, h⟩ := bind_eq_ok.mp h
  obtain ⟨d, hd, rfl⟩ := modifyLockData_ok htake
  obtain ⟨dyn, -, rfl⟩ := modifyDynamicData_ok h
  have hcreated : LockSafe
      { s with
        lockedBalances := s.lockedBalances.create
          { initialLockBalance := op.amount.amount
            lockedBalance := profit + op.amount.amount
            lockTime := s.headTime
            lockPeriod := op.period
            assetId := op.amount.assetId
            lockedBy := op.issuer } } := by
    refine ⟨⟨hs.pools, hs.balances⟩, hs.receive, fun id l hl => ?_⟩
    change (s.lockedBalances.create _).lookup id = _ at hl
    rw [Index.lookup_create] at hl
    split at hl
    · cases hl
      change op.amount.amount ≤ profit + op.amount.amount
      omega
    · exact hs.profits id l hl
  have hsafe := (safe_adjustBalance hadjust).trans (safe_modifyLockeds hlock)
  obtain ⟨hs₂, -⟩ := hsafe hcreated
  obtain ⟨t₁, rfl, -⟩ := adjustBalance_ok hadjust
  obtain ⟨t₂, rfl, -⟩ := modifyLockeds_ok hlock
  change s.lockData.lookup op.amount.assetId = some d at hd
  have hpool₀ : s.pool op.amount.assetId = d.interestPool := by
    rw [Books.pool, hd, Option.map_some, Option.getD_some]
  have hreceive := hs.receive _ _ hd
  refine ⟨?_, fun assetId => ?_, ?_⟩
  · have hleft : 0 ≤ d.interestPool - profit := by omega
    exact (hs₂.insert op.amount.assetId
      (d := { d with interestPool := d.interestPool - profit }) hleft hreceive).of_eq
        hs₂.balances rfl rfl
  · have hinsert := Books.pool_insert s op.amount.assetId
      { d with interestPool := d.interestPool - profit } assetId
    refine Eq.trans ?_ (hinsert.trans ?_)
    · rfl
    · split
      · next hid => rw [hid, hpool₀]
      · rfl
  · change (s.lockedBalances.create _).lookup s.lockedBalances.next = _
    rw [Index.lookup_create, if_pos rfl]

/-! ### Runs -/

/-- A safe step takes nothing from a pool. -/
theorem poolStep_of_safe {op : MoneyOperation} {s s' : Books} (h : Safe s s') (hs : LockSafe s) :
    LockSafe s' ∧ PoolStep op s s' := by
  obtain ⟨hs', hpool⟩ := h hs
  exact ⟨hs', fun assetId hlt => absurd hlt (not_lt.mpr (hpool assetId))⟩

/-- An evaluator whose `do_apply` is safe. -/
theorem safe_run {ρ : Type} {S : Settings} {skip : Bool} {e : Evaluator ρ} {s s' : Books} {u : Unit}
    (hpay : e.payFee = payFee e.feePayer) (hread : ∀ {m s₁}, e.doEvaluate s = .ok m s₁ → s₁ = s)
    (happly : ∀ {f m t t' s₁}, e.doEvaluate s = .ok m s →
      e.doApply f m { s with dynamicData := t, statistics := t' } = .ok () s₁ →
      Safe { s with dynamicData := t, statistics := t' } s₁)
    (h : e.run S skip s = .ok u s') : Safe s s' := by
  obtain ⟨f, m, t, t', s₄, hevaluate, happlied, hfee⟩ := Evaluator.run_around hpay hread h
  have hfees : Safe s { s with dynamicData := t, statistics := t' } := .of_eq id rfl rfl
  exact (hfees.trans (happly hevaluate happlied)).trans (safe_adjustBalance hfee)

/-- **`lock_balance`** takes the profit from the pool, and records it. -/
theorem LockBalance.run_step {S : Settings} (hS : ∀ s d, S.getProfit s d = d.getProfit s)
    {op : LockBalance} {s s' : Books} {u : Unit} (hamount : 0 < op.amount.amount)
    (h : (op.evaluator S).run S false s = .ok u s') (hs : LockSafe s) :
    LockSafe s' ∧ PoolStep (.lock (.lockBalance op)) s s' := by
  obtain ⟨f, profit, t, t', s₄, hevaluate, happlied, hfee⟩ :=
    Evaluator.run_around (e := op.evaluator S) rfl (fun h => (op.doEvaluate_reads S).of_ok h) h
  -- what `do_evaluate` has checked
  change op.doEvaluate S s = _ at hevaluate
  unfold doEvaluate at hevaluate
  rw [get_bind] at hevaluate
  obtain ⟨a, -, hevaluate⟩ := require_bind_eq_ok.mp hevaluate
  obtain ⟨d, hd, hevaluate⟩ := require_bind_eq_ok.mp hevaluate
  obtain ⟨-, hevaluate⟩ := assert_bind_eq_ok.mp hevaluate
  obtain ⟨profit', hprofit, hevaluate⟩ := require_bind_eq_ok.mp hevaluate
  obtain ⟨hpool, hevaluate⟩ := assert_bind_eq_ok.mp hevaluate
  obtain ⟨rfl, -⟩ := pure_eq_ok.mp hevaluate
  rw [hS] at hprofit
  have hnonneg : 0 ≤ profit' := AssetLockData.getProfit_nonneg (hs.pools _ _ hd)
    (hs.receive _ _ hd) hamount.le hprofit
  have hpool' : profit' ≤ s.pool op.amount.assetId := by
    rw [Books.pool, hd]
    exact hpool
  have hfees : LockSafe { s with dynamicData := t, statistics := t' } := hs.of_eq hs.balances rfl rfl
  obtain ⟨hs₄, hpools, hlock⟩ := doApply_step
    (s := { s with dynamicData := t, statistics := t' }) hnonneg hpool' happlied hfees
  have hlast := adjustBalance_nonneg hs₄.balances hfee
  obtain ⟨t₅, rfl, -⟩ := adjustBalance_ok hfee
  refine ⟨hs₄.of_eq hlast rfl rfl, fun assetId hlt => ?_⟩
  have heq : s₄.pool assetId =
      if assetId = op.amount.assetId then s.pool assetId - profit' else s.pool assetId :=
    hpools assetId
  have hlt' : s₄.pool assetId < s.pool assetId := hlt
  rw [heq] at hlt'
  split at hlt'
  · next hid =>
    refine ⟨op, _, rfl, hid, hlock, hid.symm, ?_⟩
    change s.pool assetId - s₄.pool assetId = profit' + op.amount.amount - op.amount.amount
    rw [heq, if_pos hid]
    omega
  · exact absurd hlt' (lt_irrefl _)

/-- **One operation** that is accepted and does not donate a negative amount. -/
theorem MoneyOperation.run_step {S : Settings} (hS : ∀ s d, S.getProfit s d = d.getProfit s)
    {op : MoneyOperation} {s s' : Books} {u : Unit} (hop : op.DonatesNonneg)
    (h : op.run S s = .ok u s') (hs : LockSafe s) : LockSafe s' ∧ PoolStep op s s' := by
  have hF := Frame.eq (fun s : Books => s)
  cases op with
  | transfer op =>
    rw [run] at h
    obtain ⟨_, s₀, hvalid, hrun⟩ := bind_eq_ok.mp h
    obtain ⟨-, rfl⟩ := assert_eq_ok.mp hvalid
    have hread : Keeps (fun s s' : Books => s' = s) (op.doEvaluate S) :=
      hF.keeps_bind hF.keeps_get fun _ => hF.keeps_bind (hF.keeps_require _ _) fun _ =>
        hF.keeps_bind (hF.keeps_require _ _) fun _ => hF.keeps_bind (hF.keeps_require _ _) fun _ =>
          hF.keeps_bind (hF.keeps_assert _ _) fun _ => hF.keeps_bind (hF.keeps_assert _ _) fun _ =>
            hF.keeps_bind (hF.keeps_assert _ _) fun _ => hF.keeps_assert _ _
    refine poolStep_of_safe (safe_run (e := op.evaluator S) rfl (fun h => hread.of_ok h) ?_ hrun) hs
    intro f m t t' s₁ _ happly
    obtain ⟨_, s₂, hfrom, hto⟩ := bind_eq_ok.mp happly
    exact (safe_adjustBalance hfrom).trans (safe_adjustBalance hto)
  | lock op =>
    cases op with
    | setLockData op =>
      rw [run, LockOperation.run] at h
      obtain ⟨_, s₀, hvalid, hrun⟩ := bind_eq_ok.mp h
      obtain ⟨⟨-, -, hpool, -, -, -, hreceive⟩, rfl⟩ := assert_eq_ok.mp hvalid
      refine poolStep_of_safe (safe_run (e := op.evaluator) rfl (fun h => op.doEvaluate_reads.of_ok h) ?_ hrun) hs
      intro f m t t' s₁ hevaluate happly
      change op.doEvaluate s₀ = _ at hevaluate
      unfold SetLockData.doEvaluate at hevaluate
      rw [get_bind] at hevaluate
      obtain ⟨a, -, hevaluate⟩ := require_bind_eq_ok.mp hevaluate
      exact SetLockData.safe_doApply hpool hreceive (assert_bind_eq_ok.mp hevaluate).1 happly
    | lockBalance op =>
      rw [run, LockOperation.run] at h
      obtain ⟨_, s₀, hvalid, hrun⟩ := bind_eq_ok.mp h
      obtain ⟨⟨-, hamount, -⟩, rfl⟩ := assert_eq_ok.mp hvalid
      exact LockBalance.run_step hS hamount hrun hs
    | unlockBalance op =>
      rw [run, LockOperation.run] at h
      obtain ⟨_, s₀, hvalid, hrun⟩ := bind_eq_ok.mp h
      obtain ⟨-, rfl⟩ := assert_eq_ok.mp hvalid
      exact poolStep_of_safe (safe_run (e := op.evaluator) rfl (fun h => op.doEvaluate_reads.of_ok h)
        (fun _ happly => UnlockBalance.safe_doApply happly) hrun) hs
    | donationBalance op =>
      rw [run, LockOperation.run] at h
      obtain ⟨_, s₀, hvalid, hrun⟩ := bind_eq_ok.mp h
      obtain ⟨-, rfl⟩ := assert_eq_ok.mp hvalid
      exact poolStep_of_safe (safe_run (e := op.evaluator) rfl (fun h => op.doEvaluate_reads.of_ok h)
        (fun _ happly => DonationBalance.safe_doApply hop happly) hrun) hs

/-- What the operations of a sequence do to the pools, one by one. -/
inductive PoolSteps (S : Settings) : Books → List (ℕ × MoneyOperation) → Prop
  | nil (s : Books) : PoolSteps S s []
  | cons {s s₁ : Books} {time : ℕ} {op : MoneyOperation} {ops : List (ℕ × MoneyOperation)}
      (h : op.run S { s with headTime := time } = .ok () s₁) (hstep : PoolStep op s s₁)
      (hnonneg : NonNegative s₁) (hs : PoolSteps S s₁ ops) : PoolSteps S s ((time, op) :: ops)

/-- **Pools and balances are never negative**, in every state of every sequence of accepted
operations without a donation of a negative amount; and a pool becomes smaller only by the profit of
a lock. -/
theorem pools_never_negative {S : Settings} (hS : ∀ s d, S.getProfit s d = d.getProfit s)
    {s s' : Books} {ops : List (ℕ × MoneyOperation)} (hs : LockSafe s)
    (hops : ∀ e ∈ ops, e.2.DonatesNonneg) (h : Accepted S s ops s') :
    NonNegative s' ∧ PoolSteps S s ops := by
  induction h with
  | nil s => exact ⟨hs.toNonNegative, .nil s⟩
  | @cons s s₁ s₂ time op ops hrun _ ih =>
    have htime : LockSafe { s with headTime := time } := hs.of_eq hs.balances rfl rfl
    obtain ⟨hs₁, hstep⟩ := MoneyOperation.run_step hS (hops _ (.head _)) hrun htime
    obtain ⟨hs₂, hsteps⟩ := ih hs₁ fun e he => hops e (.tail _ he)
    exact ⟨hs₂, .cons hrun hstep hs₁.toNonNegative hsteps⟩

section Example

private def moneySettings : Settings where
  isAuthorizedAsset _ _ _ := true
  calculateFee _ _ := 20
  getProfit s d := d.getProfit s

/-- One account with all of the core, for which there is no interest pool yet. -/
private def moneyBooks : Books where
  headTime := 0
  cashbackVestingThreshold := 0
  assets := AList.singleton core
    { issuer := 1
      precision := 8
      options :=
        { maxSupply := maxShareSupply
          flags := ∅
          issuerPermissions := ∅
          marketFeePercent := 0
          maxMarketFee := 0
          coreExchangeRate := ⟨⟨1, core⟩, ⟨1, core⟩⟩
          whitelistMarkets := []
          blacklistMarkets := []
          marketFeePercent_le := Nat.zero_le _
          maxMarketFee_nonneg := nothing_nonneg } }
  dynamicData := AList.singleton core
    { currentSupply := 10 ^ 12, accumulatedFees := 0, feePool := 0, lockedBalance := 0 }
  bitassets := ∅
  lockData := ∅
  balances := AList.singleton (1, core) { balance := 10 ^ 12 }
  statistics := AList.singleton 1 { totalCoreInOrders := 0, pendingFees := 0, pendingVestedFees := 0 }
  limitOrders := .empty
  callOrders := .empty
  settlements := .empty
  lockedBalances := .empty
  payouts := []

private theorem lockSafe_moneyBooks : LockSafe moneyBooks where
  pools assetId d h := by cases h
  balances key b h := by
    have hmem := AList.mem_lookup_iff.mp h
    cases List.mem_singleton.mp hmem
    decide
  receive assetId d h := by cases h
  profits id l h := by cases h

/-- An interest of a thousandth a day. -/
private def setPool : ℕ × MoneyOperation :=
  (10, .lock (.setLockData
    { fee := ⟨20, core⟩
      issuer := 1
      nominalInterestPerday := 1001 * 10 ^ 9
      rewardCoefficient := 0
      initInterestPool := ⟨10 ^ 9, core⟩
      maxPeriod := 720
      profileScalePercent := 10000
      profileReceivePercent := 10000
      canUnlockNotExpired := true }))

private def lockMonth : ℕ × MoneyOperation :=
  (20, .lock (.lockBalance
    { fee := ⟨20, core⟩, issuer := 1, amount := ⟨10 ^ 9, core⟩, period := 30 * interestDay }))

private def donate (amount : ℤ) : ℕ × MoneyOperation :=
  (30, .lock (.donationBalance { fee := ⟨20, core⟩, issuer := 1, amount := ⟨amount, core⟩ }))

private def afterPool : Books := final (setPool.2.run moneySettings) { moneyBooks with headTime := 10 }

private def afterLock : Books := final (lockMonth.2.run moneySettings) { afterPool with headTime := 20 }

private def afterDonation (s : Books) (amount : ℤ) : Books :=
  final ((donate amount).2.run moneySettings) { s with headTime := 30 }

/-- A balance is locked, with a profit of 28916, and the pool is donated to. -/
theorem pools_never_negative_donated :
    NonNegative (afterDonation afterLock 5) ∧
      PoolSteps moneySettings moneyBooks [setPool, lockMonth, donate 5] ∧
      (afterDonation afterLock 5).pool core = 10 ^ 9 - 28916 + 5 := by
  have haccepted : Accepted moneySettings moneyBooks [setPool, lockMonth, donate 5]
      (afterDonation afterLock 5) :=
    .cons (ok_final_of_run' (by decide +kernel)) (.cons (ok_final_of_run' (by decide +kernel))
      (.cons (ok_final_of_run' (by decide +kernel)) (.nil _)))
  have hops : ∀ e ∈ [setPool, lockMonth, donate 5], e.2.DonatesNonneg := by
    intro e he
    simp only [List.mem_cons, List.not_mem_nil, or_false] at he
    rcases he with rfl | rfl | rfl
    · trivial
    · trivial
    · exact (by decide : (0 : ℤ) ≤ 5)
  obtain ⟨hnonneg, hsteps⟩ :=
    pools_never_negative (fun _ _ => rfl) lockSafe_moneyBooks hops haccepted
  exact ⟨hnonneg, hsteps, by decide +kernel⟩

/-- A negative donation empties the pool and more. -/
theorem not_pools_never_negative :
    ¬ ∀ (S : Settings) (s s' : Books) (ops : List (ℕ × MoneyOperation)),
      (∀ s d, S.getProfit s d = d.getProfit s) → LockSafe s → Accepted S s ops s' →
      NonNegative s' := by
  intro hall
  have haccepted : Accepted moneySettings moneyBooks [setPool, donate (-2 * 10 ^ 9)]
      (afterDonation afterPool (-2 * 10 ^ 9)) :=
    .cons (ok_final_of_run' (by decide +kernel))
      (.cons (ok_final_of_run' (by decide +kernel)) (.nil _))
  have hnonneg := hall _ _ _ _ (fun _ _ => rfl) lockSafe_moneyBooks haccepted
  have hpool := hnonneg.pools core ⟨core, 1001 * 10 ^ 9, 0, -10 ^ 9, 720, 10000, 10000, true⟩
    (by decide +kernel)
  exact absurd hpool (by decide)

end Example

end FinChain.Ledger
