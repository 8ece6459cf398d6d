import FinChain.Ledger.AssetPostings
import FinChain.Ledger.Solvency

/-!
# Locked balances in the books

The operations on locked balances move amounts between balances, interest pools and locks, and
leave orders, bitassets and supplies alone. What is held altogether does not change, whatever is
donated; that nothing becomes negative takes donations that are not negative.
-/

namespace FinChain.Ledger

open Exec

/-- No locked balance was negative when it was locked. -/
def LocksNonneg (x : Index LockedBalance) : Prop :=
  ∀ id l, x.lookup id = some l → 0 ≤ l.initialLockBalance

/-- What an operation on locked balances can change when it is applied. -/
structure LockStep (s s' : Books) : Prop where
  rest : s' = { s with
    balances := s'.balances, dynamicData := s'.dynamicData, lockData := s'.lockData
    lockedBalances := s'.lockedBalances, payouts := s'.payouts }
  balances : BalancesNonneg s.balances → BalancesNonneg s'.balances
  funds : fundsLessSupply s'.dynamicData = fundsLessSupply s.dynamicData
  fundsNonneg : FundsNonneg s.dynamicData → FundsNonneg s'.dynamicData
  supply : supplyOf s'.dynamicData = supplyOf s.dynamicData
  locks : LocksNonneg s.lockedBalances → LocksNonneg s'.lockedBalances

theorem lockFrame : Frame LockStep where
  refl s := ⟨rfl, id, rfl, id, rfl, id⟩
  trans {s₁ s₂ s₃} h h' := by
    refine ⟨?_, fun hs => h'.balances (h.balances hs), h'.funds.trans h.funds,
      fun hs => h'.fundsNonneg (h.fundsNonneg hs), h'.supply.trans h.supply,
      fun hs => h'.locks (h.locks hs)⟩
    rw [h'.rest, h.rest]

theorem LockStep.aside {s s' : Books} (h : LockStep s s') : Aside s s' := by
  have hrest := h.rest
  refine ⟨?_, ?_, ?_, ?_, ?_, fun k _ => congrFun h.supply k, fun hs =>
    ⟨h.balances hs.balances, h.fundsNonneg hs.funds, ?_⟩⟩
  all_goals rw [hrest]
  exact hs.pending

/-! ### Parts of the operations -/

theorem lockStep_adjustBalance (account : ℕ) (delta : Asset) :
    KeepsOk LockStep (adjustBalance account delta) := by
  intro s u s' h
  obtain ⟨t, rfl, -⟩ := adjustBalance_ok h
  exact ⟨rfl, fun hs => adjustBalance_nonneg hs h, rfl, id, rfl, id⟩

theorem lockStep_modifyLockData (assetId : ℕ) (g : AssetLockData → AssetLockData) :
    KeepsOk LockStep (modifyLockData assetId g) := by
  intro s u s' h
  obtain ⟨d, -, rfl⟩ := modifyLockData_ok h
  exact ⟨rfl, id, rfl, id, rfl, id⟩

theorem lockStep_modifyLockeds (account assetId : ℕ) (g : Finset ℕ → Finset ℕ) :
    KeepsOk LockStep (modifyLockeds account assetId g) := by
  intro s u s' h
  unfold modifyLockeds at h
  rw [get_bind] at h
  obtain ⟨b, hb, h⟩ := require_bind_eq_ok.mp h
  obtain rfl := update_eq_ok.mp h
  refine ⟨rfl, fun hs => ?_, rfl, id, rfl, id⟩
  have hold : 0 ≤ b.balance := hs _ b hb
  exact hs.insert _ hold

/-- The sum of what is locked is kept beside the supply. -/
theorem lockStep_lockedBalance (assetId : ℕ) (x : ℤ) :
    KeepsOk LockStep (modifyDynamicData assetId fun d =>
      { d with lockedBalance := d.lockedBalance + x }) := by
  intro s u s' h
  obtain ⟨d, hd, rfl⟩ := modifyDynamicData_ok h
  refine ⟨rfl, id, ?_, fun hs => ?_, supplyOf_insert_of_same hd rfl, id⟩
  · unfold fundsLessSupply
    rw [Table.total_insert_of_lookup _ _ hd, sub_self, add_zero]
  · have hold : 0 ≤ d.accumulatedFees ∧ 0 ≤ d.feePool := hs _ d hd
    exact hs.insert _ hold

/-! ### The operations -/

theorem SetLockData.lockStep_doApply (op : SetLockData) : KeepsOk LockStep op.doApply := by
  refine lockFrame.keepsOk_bind lockFrame.keepsOk_get fun s =>
    lockFrame.keepsOk_bind (lockFrame.keepsOk_assert _ _) fun _ => lockFrame.keepsOk_bind ?_ fun _ => ?_
  · unfold payPool
    split
    · exact lockStep_adjustBalance _ _
    · exact lockFrame.keepsOk_pure ()
  · exact keepsOk_update fun s => ⟨rfl, id, rfl, id, rfl, id⟩

theorem DonationBalance.lockStep_doApply (op : DonationBalance) : KeepsOk LockStep op.doApply :=
  lockFrame.keepsOk_bind lockFrame.keepsOk_get fun _ =>
    lockFrame.keepsOk_bind (lockFrame.keepsOk_require _ _) fun _ =>
      lockFrame.keepsOk_bind (lockFrame.keepsOk_require _ _) fun _ =>
        lockFrame.keepsOk_bind (lockStep_adjustBalance _ _) fun _ => lockStep_modifyLockData _ _

theorem LockBalance.lockStep_doApply {op : LockBalance} (hamount : 0 < op.amount.amount) (profit : ℤ) :
    KeepsOk LockStep (op.doApply profit) := by
  refine lockFrame.keepsOk_bind lockFrame.keepsOk_get fun s =>
    lockFrame.keepsOk_bind (lockFrame.keepsOk_require _ _) fun _ =>
      lockFrame.keepsOk_bind (lockFrame.keepsOk_require _ _) fun _ => lockFrame.keepsOk_bind ?_ fun _ =>
        lockFrame.keepsOk_bind (lockFrame.keepsOk_require _ _) fun _ =>
          lockFrame.keepsOk_bind (lockStep_adjustBalance _ _) fun _ =>
            lockFrame.keepsOk_bind (lockFrame.keepsOk_assert _ _) fun _ =>
              lockFrame.keepsOk_bind (lockStep_modifyLockeds _ _ _) fun _ =>
                lockFrame.keepsOk_bind (lockStep_modifyLockData _ _) fun _ =>
                  lockStep_lockedBalance _ _
  refine keepsOk_update fun s => ⟨rfl, id, rfl, id, rfl, fun hs id l hl => ?_⟩
  rw [Index.lookup_create] at hl
  split at hl
  · cases hl
    exact hamount.le
  · exact hs id l hl

theorem UnlockBalance.lockStep_doApply (op : UnlockBalance) : KeepsOk LockStep op.doApply := by
  have hpay : ∀ expired item, KeepsOk LockStep (op.pay expired item) := by
    intro expired item
    unfold pay
    split
    · exact lockFrame.keepsOk_bind (lockStep_adjustBalance _ _) fun _ => lockFrame.keepsOk_pure _
    · exact lockFrame.keepsOk_bind (lockStep_adjustBalance _ _) fun _ =>
        lockFrame.keepsOk_bind (lockStep_modifyLockData _ _) fun _ => lockFrame.keepsOk_pure _
  refine lockFrame.keepsOk_bind lockFrame.keepsOk_get fun s =>
    lockFrame.keepsOk_bind (lockFrame.keepsOk_require _ _) fun item =>
      lockFrame.keepsOk_bind (lockFrame.keepsOk_require _ _) fun _ =>
        lockFrame.keepsOk_bind (lockFrame.keepsOk_require _ _) fun _ =>
          lockFrame.keepsOk_bind (lockFrame.keepsOk_assert _ _) fun _ =>
            lockFrame.keepsOk_bind (lockFrame.keepsOk_lift _) fun expired =>
              lockFrame.keepsOk_bind (lockFrame.keepsOk_assert _ _) fun _ =>
                lockFrame.keepsOk_bind (hpay _ _) fun payout => lockFrame.keepsOk_bind ?_ fun _ =>
                  lockFrame.keepsOk_bind lockFrame.keepsOk_get fun _ =>
                    lockFrame.keepsOk_bind (lockFrame.keepsOk_require _ _) fun _ =>
                      lockFrame.keepsOk_bind (lockFrame.keepsOk_assert _ _) fun _ =>
                        lockStep_modifyLockeds _ _ _
  refine keepsOk_update fun s => ⟨rfl, id, rfl, id, rfl, fun hs id l hl => ?_⟩
  rw [Index.lookup_modify] at hl
  split at hl
  · obtain ⟨l', hl', rfl⟩ := Option.map_eq_some_iff.mp hl
    exact hs _ l' hl'
  · exact hs id l hl

/-- A step that keeps the sum over balances, locks and pools keeps all that is held. -/
theorem LockStep.wealth {s s' : Books} (h : LockStep s s') (hworth : lockWorth s' = lockWorth s) :
    s'.wealth = s.wealth := by
  have hheld : held s'.balances = held s.balances + lockedUp s.lockedBalances + pooled s.lockData -
      lockedUp s'.lockedBalances - pooled s'.lockData := by
    unfold lockWorth at hworth
    rw [← hworth]
    abel
  unfold Books.wealth Books.worth Books.reserves
  rw [h.rest]
  dsimp only
  rw [h.funds, hheld]
  abel

/-- The fee is paid in the usual way around what an operation on locked balances does. -/
theorem lock_run {ρ : Type} {S : Settings} {e : Evaluator ρ} {s s' : Books} {u : Unit}
    (hid : e.coreFeePaid = id) (hpay : e.payFee = Ledger.payFee e.feePayer)
    (hread : Keeps (fun s s' : Books => s' = s) e.doEvaluate)
    (happly : ∀ {f m v s₁ s₂}, e.doEvaluate s = .ok m s → Paid s v s₁ →
      e.doApply f m s₁ = .ok () s₂ → LockStep s₁ s₂ ∧ lockWorth s₂ = lockWorth s₁)
    (h : e.run S false s = .ok u s') :
    ∃ s₁ s₂, Paid s e.fee.vec s₁ ∧ LockStep s₁ s₂ ∧ lockWorth s₂ = lockWorth s₁ ∧
      Paid s₂ (-e.fee.vec) s' := by
  obtain ⟨f, m, s₂, s₃, s₄, hprepare, hevaluate, hconvert, hfee, happlied, hlast⟩ :=
    Evaluator.run_paid (fun h => hread.of_ok h) (fun f _ => (congrFun hid f).le) h
  obtain ⟨-, -, hnonneg, hcore, -⟩ := prepareFee_ok hprepare
  rw [hpay] at hfee
  rw [hid] at hconvert hfee
  have hfirst := (hconvert.trans (paid_payFee hnonneg hfee)).cast (fee_vec hcore)
  obtain ⟨hstep, hworth⟩ := happly hevaluate hfirst happlied
  exact ⟨s₃, s₄, hfirst, hstep, hworth, hlast⟩

/-- **An operation on locked balances** is a step beside the market. -/
theorem LockOperation.lockStep_run {S : Settings} {op : LockOperation} {s s' : Books} {u : Unit}
    (h : op.run S s = .ok u s') :
    ∃ s₁ s₂, Paid s op.fee.vec s₁ ∧ LockStep s₁ s₂ ∧ lockWorth s₂ = lockWorth s₁ ∧
      Paid s₂ (-op.fee.vec) s' := by
  have hzero : ∀ {s s' : Books}, Moves 0 s s' → lockWorth s' = lockWorth s :=
    fun hmoves => hmoves.worth.trans (add_zero _)
  cases op with
  | setLockData op =>
    rw [run] at h
    obtain ⟨_, s₀, hvalid, hrun⟩ := bind_eq_ok.mp h
    obtain ⟨⟨-, -, hnonneg, -⟩, rfl⟩ := assert_eq_ok.mp hvalid
    refine lock_run (e := op.evaluator) rfl rfl op.doEvaluate_reads ?_ hrun
    intro f m v s₁ s₂ hevaluate hpaid happly
    change op.doEvaluate s₀ = _ at hevaluate
    unfold SetLockData.doEvaluate at hevaluate
    rw [get_bind] at hevaluate
    obtain ⟨a, -, hevaluate⟩ := require_bind_eq_ok.mp hevaluate
    have hnone : s₁.lockData.lookup op.initInterestPool.assetId = none := by
      rw [hpaid.rest]
      exact (assert_bind_eq_ok.mp hevaluate).1
    exact ⟨op.lockStep_doApply _ _ _ happly, hzero (SetLockData.moves_doApply hnonneg hnone happly)⟩
  | lockBalance op =>
    rw [run] at h
    obtain ⟨_, s₀, hvalid, hrun⟩ := bind_eq_ok.mp h
    obtain ⟨⟨-, hamount, -⟩, rfl⟩ := assert_eq_ok.mp hvalid
    exact lock_run (e := op.evaluator S) rfl rfl (op.doEvaluate_reads S) (fun _ _ happly =>
      ⟨LockBalance.lockStep_doApply hamount _ _ _ _ happly, hzero (LockBalance.moves_doApply happly)⟩)
      hrun
  | unlockBalance op =>
    rw [run] at h
    obtain ⟨_, s₀, hvalid, hrun⟩ := bind_eq_ok.mp h
    obtain ⟨-, rfl⟩ := assert_eq_ok.mp hvalid
    exact lock_run (e := op.evaluator) rfl rfl op.doEvaluate_reads (fun _ _ happly =>
      ⟨op.lockStep_doApply _ _ _ happly, hzero (UnlockBalance.moves_doApply happly)⟩) hrun
  | donationBalance op =>
    rw [run] at h
    obtain ⟨_, s₀, hvalid, hrun⟩ := bind_eq_ok.mp h
    obtain ⟨-, rfl⟩ := assert_eq_ok.mp hvalid
    exact lock_run (e := op.evaluator) rfl rfl op.doEvaluate_reads (fun _ _ happly =>
      ⟨op.lockStep_doApply _ _ _ happly, hzero (DonationBalance.moves_doApply happly)⟩) hrun

theorem LockOperation.aside_run {S : Settings} {op : LockOperation} {s s' : Books} {u : Unit}
    (h : op.run S s = .ok u s') : Aside s s' := by
  obtain ⟨s₁, s₂, hfee, hstep, -, hlast⟩ := lockStep_run h
  exact (hfee.aside.trans hstep.aside).trans hlast.aside

/-- **Nothing is lost or made** by operations on locked balances. -/
theorem LockOperation.wealth_run {S : Settings} {op : LockOperation} {s s' : Books} {u : Unit}
    (h : op.run S s = .ok u s') : s'.wealth = s.wealth := by
  have hpaid : ∀ {s s' : Books} {v : ℕ → ℤ}, Paid s v s' → s'.wealth = s.wealth + v := by
    intro s s' v h
    unfold Books.wealth Books.worth Books.reserves
    rw [h.cash, h.rest]
    abel
  obtain ⟨s₁, s₂, hfee, hstep, hworth, hlast⟩ := lockStep_run h
  rw [hpaid hlast, hstep.wealth hworth, hpaid hfee]
  abel

theorem LockOperation.solvent_run {S : Settings} (hS : ∀ s d, S.getProfit s d = d.getProfit s)
    {op : LockOperation} {s s' : Books} {u : Unit} (hop : (MoneyOperation.lock op).DonatesNonneg)
    (h : op.run S s = .ok u s') (hs : Solvent s) : Solvent s' := by
  obtain ⟨s₁, s₂, hfee, hstep, -, hlast⟩ := lockStep_run h
  have haside := aside_run h
  have hsafe := (MoneyOperation.run_step hS hop h hs.toLockSafe).1
  have hlocks : LocksNonneg s'.lockedBalances := by
    rw [hlast.rest]
    refine hstep.locks ?_
    rw [hfee.rest]
    exact hs.locks
  have hsame : s'.vestingBalances = s.vestingBalances ∧ s'.fbas = s.fbas ∧
      s'.witnessBudget = s.witnessBudget := by
    rw [hlast.rest, hstep.rest, hfee.rest]
    exact ⟨rfl, rfl, rfl⟩
  exact
    { hs.toSound.of_aside haside, hs.toCoreIssued.of_aside haside, hsafe with
      locks := hlocks
      vesting := by
        rw [hsame.1]
        exact hs.vesting
      fbas := by
        rw [hsame.2.1]
        exact hs.fbas
      witnessBudget := by
        rw [hsame.2.2]
        exact hs.witnessBudget }

end FinChain.Ledger
