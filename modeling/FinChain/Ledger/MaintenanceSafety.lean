import FinChain.Ledger.SettlementPostings
import FinChain.Ledger.Solvency

/-!
# Maintenance conserves core

Every step of the maintenance hands a part of what it shares out to someone, or back to the reserve,
in which case it leaves the supply. `Shared` says by how much a step changes what is held beyond the
supply: a deposit adds to it, and so does core that leaves the supply; taking the fees out of the
books takes it off again. The steps add up to nothing.

The supply only shrinks until the budget is paid, and the budget is not more than the reserve.
-/

namespace FinChain.Ledger

open Exec

/-- A step that hands out `v` in core. -/
structure Shared (s : Books) (v : ℤ) (s' : Books) : Prop where
  rest : s' = { s with
    balances := s'.balances, dynamicData := s'.dynamicData, statistics := s'.statistics
    fbas := s'.fbas, vestingBalances := s'.vestingBalances, accounts := s'.accounts
    workers := s'.workers }
  wealth : s'.wealth = s.wealth + Asset.vec ⟨v, core⟩
  supply : ∀ k, k ≠ core → supplyOf s'.dynamicData k = supplyOf s.dynamicData k
  shrinks : ∀ x', supplyOf s'.dynamicData core = some x' →
    ∃ x, supplyOf s.dynamicData core = some x ∧ x' ≤ x
  nonneg : Sound s → BalancesNonneg s'.balances ∧ FundsNonneg s'.dynamicData ∧
    PendingNonneg s'.statistics
  vesting : (∀ id b, s.vestingBalances.lookup id = some b → 0 ≤ b.balance.amount) →
    ∀ id b, s'.vestingBalances.lookup id = some b → 0 ≤ b.balance.amount
  fbas : (∀ id f, s.fbas.lookup id = some f → 0 ≤ f.accumulatedFbaFees) →
    ∀ id f, s'.fbas.lookup id = some f → 0 ≤ f.accumulatedFbaFees
  pays : ∀ id w', s'.workers.lookup id = some w' →
    ∃ w, s.workers.lookup id = some w ∧ w'.dailyPay = w.dailyPay

namespace Shared

variable {s s₁ s' : Books} {v w : ℤ}

theorem refl (s : Books) : Shared s 0 s where
  rest := rfl
  wealth := by rw [Asset.vec_of_zero rfl, add_zero]
  supply _ _ := rfl
  shrinks x hx := ⟨x, hx, le_rfl⟩
  nonneg hs := ⟨hs.balances, hs.funds, hs.pending⟩
  vesting := id
  fbas := id
  pays _ w hw := ⟨w, hw, rfl⟩

theorem aside (h : Shared s v s') (hcore : CoreIssued s) : Aside s s' := by
  have hrest := h.rest
  refine ⟨?_, ?_, ?_, ?_, ?_, fun k hk => h.supply k ?_, h.nonneg⟩
  · rw [hrest]
  · rw [hrest]
  · rw [hrest]
  · rw [hrest]
  · rw [hrest]
  · rintro rfl
    exact hk hcore.bitasset

theorem regular (h : Shared s v s') (hs : Regular s) : Regular s' :=
  { hs.toSound.of_aside (h.aside hs.toCoreIssued),
    hs.toCoreIssued.of_aside (h.aside hs.toCoreIssued) with
    fbas := h.fbas hs.fbas }

theorem solvent (h : Shared s v s') (hs : Solvent s) : Solvent s' := by
  have haside := h.aside hs.toCoreIssued
  have hsame : s'.lockData = s.lockData ∧ s'.lockedBalances = s.lockedBalances ∧
      s'.witnessBudget = s.witnessBudget := by
    rw [h.rest]
    exact ⟨rfl, rfl, rfl⟩
  have hsound := hs.toSound.of_aside haside
  exact
    { hsound, hs.toCoreIssued.of_aside haside,
      hs.toLockSafe.of_eq hsound.balances hsame.1 hsame.2.1 with
      locks := by
        rw [hsame.2.1]
        exact hs.locks
      vesting := h.vesting hs.vesting
      fbas := h.fbas hs.fbas
      witnessBudget := by
        rw [hsame.2.2]
        exact hs.witnessBudget }

/-- Steps one after the other. What is not negative is so after the first one, too. -/
theorem trans (hcore : CoreIssued s) (h : Shared s v s₁) (h' : Shared s₁ w s') :
    Shared s (v + w) s' where
  rest := by
    rw [h'.rest, h.rest]
  wealth := by
    rw [h'.wealth, h.wealth, Asset.vec_add, add_assoc]
  supply k hk := (h'.supply k hk).trans (h.supply k hk)
  shrinks x' hx' := by
    obtain ⟨x₁, hx₁, hle⟩ := h'.shrinks x' hx'
    obtain ⟨x, hx, hle'⟩ := h.shrinks x₁ hx₁
    exact ⟨x, hx, hle.trans hle'⟩
  nonneg hs := h'.nonneg (hs.of_aside (h.aside hcore))
  vesting hs := h'.vesting (h.vesting hs)
  fbas hs := h'.fbas (h.fbas hs)
  pays id w' hw' := by
    obtain ⟨w₁, hw₁, hpay⟩ := h'.pays id w' hw'
    obtain ⟨w, hw, hpay'⟩ := h.pays id w₁ hw₁
    exact ⟨w, hw, hpay.trans hpay'⟩

theorem cast (h : Shared s v s') (hv : v = w) : Shared s w s' := hv ▸ h

theorem coreIssued (h : Shared s v s') (hcore : CoreIssued s) : CoreIssued s' :=
  hcore.of_aside (h.aside hcore)

end Shared

/-! ### Parts -/

theorem shared_paid {s s' : Books} {v : ℤ} (h : Paid s (Asset.vec ⟨v, core⟩) s') : Shared s v s' where
  rest := by
    rw [h.rest]
  wealth := by
    unfold Books.wealth Books.worth Books.reserves
    rw [h.cash, h.rest]
    abel
  supply k _ := congrFun h.supply k
  shrinks x' hx' := ⟨x', by rw [← h.supply]; exact hx', le_rfl⟩
  nonneg hs := ⟨h.balances hs.balances, h.funds hs.funds, h.pending hs.pending⟩
  vesting := by
    rw [h.rest]
    exact id
  fbas := by
    rw [h.rest]
    exact id
  pays := by
    rw [h.rest]
    exact fun _ w hw => ⟨w, hw, rfl⟩

theorem shared_changeCoreSupply {x : ℤ} {s s' : Books} {u : Unit} (hx : 0 ≤ x)
    (h : changeCoreSupply (-x) s = .ok u s') : Shared s x s' := by
  unfold changeCoreSupply at h
  obtain ⟨d, hd, rfl⟩ := modifyDynamicData_ok h
  change Shared s x { s with dynamicData := s.dynamicData.insert core (d.supplied (-x)) }
  refine ⟨rfl, ?_, fun k hk => ?_, fun x' hx' => ⟨d.currentSupply, supplyOf_of_lookup hd, ?_⟩,
    fun hs => ⟨hs.balances, hs.funds.supplied hd _, hs.pending⟩, id, id, fun _ w hw => ⟨w, hw, rfl⟩⟩
  · unfold Books.wealth Books.worth Books.reserves
    rw [fundsLessSupply_supplied hd, vec_neg_amount]
    abel
  · exact (supplyOf_insert _ _ _ _).trans (if_neg hk)
  · change supplyOf (s.dynamicData.insert core (d.supplied (-x))) core = some x' at hx'
    rw [supplyOf_insert, if_pos rfl] at hx'
    cases hx'
    change d.currentSupply + -x ≤ d.currentSupply
    omega

theorem shared_vesting {x : Index VestingBalance} {v : ℤ} (s : Books)
    (htotal : x.total (fun _ b => b.balance.vec) =
      s.vestingBalances.total (fun _ b => b.balance.vec) + Asset.vec ⟨v, core⟩)
    (hnonneg : (∀ id b, s.vestingBalances.lookup id = some b → 0 ≤ b.balance.amount) →
      ∀ id b, x.lookup id = some b → 0 ≤ b.balance.amount) :
    Shared s v { s with vestingBalances := x } := by
  refine ⟨rfl, ?_, fun _ _ => rfl, fun x' hx' => ⟨x', hx', le_rfl⟩,
    fun hs => ⟨hs.balances, hs.funds, hs.pending⟩, hnonneg, id, fun _ w hw => ⟨w, hw, rfl⟩⟩
  unfold Books.wealth Books.worth Books.reserves
  rw [htotal]
  abel

theorem shared_depositVesting {id : ℕ} {amount : ℤ} {s s' : Books} {u : Unit} (hamount : 0 ≤ amount)
    (h : depositVesting id amount s = .ok u s') : Shared s amount s' := by
  unfold depositVesting at h
  rw [get_bind] at h
  obtain ⟨b, hb, h⟩ := require_bind_eq_ok.mp h
  obtain ⟨balance, hbalance, h⟩ := lift_bind_eq_ok.mp h
  obtain rfl := update_eq_ok.mp h
  obtain ⟨hid, rfl⟩ := Asset.add_eq_ok hbalance
  refine shared_vesting s ?_ ?_
  · rw [Index.total_modify _ _ hb]
    change _ + (Asset.vec ⟨b.balance.amount + amount, b.balance.assetId⟩ -
      Asset.vec ⟨b.balance.amount, b.balance.assetId⟩) = _
    rw [Asset.vec_add, add_sub_cancel_left, hid]
  · intro hs id' b' hb'
    rw [Index.lookup_modify] at hb'
    split at hb'
    · rw [hb] at hb'
      cases hb'
      exact add_nonneg (hs id b hb) hamount
    · exact hs id' b' hb'

theorem shared_createVesting {amount : ℤ} {seconds owner : ℕ} {created : Option ℕ} {s s' : Books}
    (hamount : 0 ≤ amount) (h : createVesting amount seconds owner s = .ok created s') :
    Shared s amount s' := by
  unfold createVesting at h
  rw [get_bind, update_bind] at h
  obtain ⟨-, rfl⟩ := pure_eq_ok.mp h
  refine shared_vesting s ?_ ?_
  · rw [Index.total_create]
  · intro hs id b hb
    rw [Index.lookup_create] at hb
    split at hb
    · cases hb
      exact hamount
    · exact hs id b hb

theorem shared_accounts (s : Books) (t : Table ℕ Account) : Shared s 0 { s with accounts := t } where
  rest := rfl
  wealth := by
    rw [Asset.vec_of_zero rfl, add_zero]
    rfl
  supply _ _ := rfl
  shrinks x hx := ⟨x, hx, le_rfl⟩
  nonneg hs := ⟨hs.balances, hs.funds, hs.pending⟩
  vesting := id
  fbas := id
  pays _ w hw := ⟨w, hw, rfl⟩

theorem shared_depositLazyVesting {id created : Option ℕ} {amount : ℤ} {seconds owner : ℕ}
    {s s' : Books} (hamount : 0 ≤ amount)
    (h : depositLazyVesting id amount seconds owner s = .ok created s') : Shared s amount s' := by
  unfold depositLazyVesting at h
  rw [get_bind] at h
  obtain ⟨target, -, h⟩ := lift_bind_eq_ok.mp h
  cases target with
  | none => exact shared_createVesting hamount h
  | some id =>
    obtain ⟨_, s₁, hdeposit, h⟩ := bind_eq_ok.mp h
    obtain ⟨-, rfl⟩ := pure_eq_ok.mp h
    exact shared_depositVesting hamount hdeposit

/-- **`deposit_cashback`** hands out the amount, to the account or to the reserve. -/
theorem shared_depositCashback {account : ℕ} {amount : ℤ} {s s' : Books} {u : Unit}
    (hcore : CoreIssued s) (hamount : 0 ≤ amount) (h : depositCashback account amount s = .ok u s') :
    Shared s amount s' := by
  unfold depositCashback at h
  rw [get_bind] at h
  obtain ⟨a, -, h⟩ := require_bind_eq_ok.mp h
  split at h
  · next hzero =>
    obtain ⟨-, rfl⟩ := pure_eq_ok.mp h
    rw [hzero]
    exact Shared.refl s
  split at h
  · exact shared_changeCoreSupply hamount h
  obtain ⟨created, s₁, hdeposit, h⟩ := bind_eq_ok.mp h
  have hdeposited := shared_depositLazyVesting hamount hdeposit
  cases created with
  | none =>
    obtain ⟨-, rfl⟩ := pure_eq_ok.mp h
    exact hdeposited
  | some id =>
    unfold rememberVesting at h
    obtain rfl := update_eq_ok.mp h
    exact (hdeposited.trans hcore (shared_accounts s₁ _)).cast (add_zero _)

/-! ### Fees -/

theorem toUint64_eq_ok {x y : ℤ} (h : toUint64 x = .ok y) : y = x := by
  unfold toUint64 at h
  split at h
  · cases h
    rfl
  · cases h

theorem percentOf_ok {x y : ℤ} {percent : ℕ} (hx : 0 ≤ x) (h : percentOf x percent = .ok y) :
    0 ≤ y ∧ y * hundredPercent ≤ x * percent := by
  have hfits := toUint64_eq_ok h
  have hpercent : (0 : ℤ) ≤ percent := Int.natCast_nonneg _
  have hpos : (0 : ℤ) < hundredPercent := by decide
  rw [hfits]
  refine ⟨Int.ediv_nonneg (uint128_nonneg _) hpos.le, ?_⟩
  calc uint128 (uint128 x * percent) / hundredPercent * hundredPercent
      ≤ uint128 (uint128 x * percent) := Int.ediv_mul_le _ hpos.ne'
    _ ≤ uint128 x * percent := uint128_le (mul_nonneg (uint128_nonneg x) hpercent)
    _ ≤ x * percent := mul_le_mul_of_nonneg_right (uint128_le hx) hpercent

theorem cutFee_ok {x y : ℤ} {percent : ℕ} (hx : 0 ≤ x) (h : cutFee x percent = .ok y) :
    0 ≤ y ∧ y * hundredPercent ≤ x * percent := by
  unfold cutFee at h
  split at h
  · cases h
    refine ⟨le_rfl, ?_⟩
    rw [zero_mul]
    exact mul_nonneg hx (Int.natCast_nonneg _)
  split at h
  · next hall =>
    cases h
    rw [hall]
    exact ⟨hx, le_rfl⟩
  · exact percentOf_ok hx h

/-- **The shares in a fee** are not negative and add up to it. -/
theorem Account.cuts_ok {a : Account} {total network lifetime referrer registrar : ℤ}
    (htotal : 0 ≤ total) (h : a.cuts total = .ok (network, lifetime, referrer, registrar)) :
    0 ≤ network ∧ 0 ≤ lifetime ∧ 0 ≤ referrer ∧ 0 ≤ registrar ∧
      network + lifetime + referrer + registrar = total := by
  unfold cuts at h
  obtain ⟨n, hn, h⟩ := except_bind_eq_ok.mp h
  obtain ⟨l, hl, h⟩ := except_bind_eq_ok.mp h
  obtain ⟨r, hr, h⟩ := except_bind_eq_ok.mp h
  cases h
  obtain ⟨hn, hnle⟩ := cutFee_ok htotal hn
  obtain ⟨hl, hlle⟩ := cutFee_ok htotal hl
  have hpercentages : total * (a.networkFeePercentage + a.lifetimeReferrerFeePercentage : ℤ) ≤
      total * hundredPercent := by
    refine mul_le_mul_of_nonneg_left ?_ htotal
    exact_mod_cast a.feePercentages_le
  have hreferral : 0 ≤ total - network - lifetime := by
    rw [mul_add] at hpercentages
    unfold hundredPercent at hnle hlle hpercentages
    push_cast at hnle hlle hpercentages
    omega
  obtain ⟨hr, hrle⟩ := cutFee_ok hreferral hr
  have hrewards : (total - network - lifetime) * (a.referrerRewardsPercentage : ℤ) ≤
      (total - network - lifetime) * hundredPercent := by
    refine mul_le_mul_of_nonneg_left ?_ hreferral
    exact_mod_cast a.referrerRewardsPercentage_le
  have hregistrar : referrer ≤ total - network - lifetime := by
    unfold hundredPercent at hrle hrewards
    push_cast at hrle hrewards
    omega
  refine ⟨hn, hl, hr, ?_, ?_⟩
  · omega
  · omega

/-- **`pay_out_fees`** hands out the fee. -/
theorem shared_payOutFees {account : ℕ} {total : ℤ} {s s' : Books} {u : Unit} (hcore : CoreIssued s)
    (htotal : 0 ≤ total) (h : payOutFees account total s = .ok u s') : Shared s total s' := by
  unfold payOutFees at h
  rw [get_bind] at h
  obtain ⟨old, -, h⟩ := require_bind_eq_ok.mp h
  obtain ⟨referrer, -, h⟩ := require_bind_eq_ok.mp h
  simp only at h
  rw [update_bind] at h
  obtain ⟨⟨network, lifetime, toReferrer, registrar⟩, hcuts, h⟩ := lift_bind_eq_ok.mp h
  obtain ⟨hnetwork, hlifetime, hreferrer, hregistrar, hsum⟩ := Account.cuts_ok htotal hcuts
  obtain ⟨_, s₁, hcollect, h⟩ := bind_eq_ok.mp h
  obtain ⟨_, s₂, hfirst, h⟩ := bind_eq_ok.mp h
  obtain ⟨_, s₃, hsecond, hthird⟩ := bind_eq_ok.mp h
  have hcollected := (shared_accounts s _).trans hcore
    (shared_paid (paid_collected (fun d _ hd => add_nonneg hd hnetwork) hcollect))
  have h₂ := hcollected.trans hcore
    (shared_depositCashback (hcollected.coreIssued hcore) hlifetime hfirst)
  have h₃ := h₂.trans hcore (shared_depositCashback (h₂.coreIssued hcore) hreferrer hsecond)
  refine (h₃.trans hcore (shared_depositCashback (h₃.coreIssued hcore) hregistrar hthird)).cast ?_
  omega

/-- Programs that leave the statistics alone. -/
theorem statisticsFrame : Frame fun s s' : Books => s'.statistics = s.statistics :=
  Frame.eq Books.statistics

theorem keepsOk_modifyDynamicData {R : Books → Books → Prop} {assetId : ℕ}
    {g : AssetDynamicData → AssetDynamicData}
    (h : ∀ s d, s.dynamicData.lookup assetId = some d →
      R s { s with dynamicData := s.dynamicData.insert assetId (g d) }) :
    KeepsOk R (modifyDynamicData assetId g) := by
  intro s u s' hs
  obtain ⟨d, hd, rfl⟩ := modifyDynamicData_ok hs
  exact h s d hd

theorem keepsOk_depositVesting {R : Books → Books → Prop} (hR : Frame R)
    (h : ∀ s x, R s { s with vestingBalances := x }) (id : ℕ) (amount : ℤ) :
    KeepsOk R (depositVesting id amount) :=
  hR.keepsOk_bind hR.keepsOk_get fun _ => hR.keepsOk_bind (hR.keepsOk_require _ _) fun _ =>
    hR.keepsOk_bind (hR.keepsOk_lift _) fun _ => keepsOk_update fun s => h s _

theorem statistics_depositCashback (account : ℕ) (amount : ℤ) :
    KeepsOk (fun s s' : Books => s'.statistics = s.statistics) (depositCashback account amount) := by
  have hF := statisticsFrame
  refine hF.keepsOk_bind hF.keepsOk_get fun s => hF.keepsOk_bind (hF.keepsOk_require _ _) fun a => ?_
  split
  · exact hF.keepsOk_pure ()
  split
  · exact keepsOk_modifyDynamicData fun _ _ _ => rfl
  refine hF.keepsOk_bind (hF.keepsOk_bind hF.keepsOk_get fun s =>
    hF.keepsOk_bind (hF.keepsOk_lift _) fun target => ?_) fun created => ?_
  · cases target with
    | none =>
      exact hF.keepsOk_bind hF.keepsOk_get fun _ =>
        hF.keepsOk_bind (keepsOk_update fun _ => rfl) fun _ => hF.keepsOk_pure _
    | some id =>
      exact hF.keepsOk_bind (keepsOk_depositVesting hF (fun _ _ => rfl) _ _) fun _ => hF.keepsOk_pure _
  · cases created with
    | none => exact hF.keepsOk_pure ()
    | some id => exact keepsOk_update fun _ => rfl

theorem statistics_payOutFees (account : ℕ) (total : ℤ) :
    KeepsOk (fun s s' : Books => s'.statistics = s.statistics) (payOutFees account total) := by
  have hF := statisticsFrame
  exact hF.keepsOk_bind hF.keepsOk_get fun _ => hF.keepsOk_bind (hF.keepsOk_require _ _) fun _ =>
    hF.keepsOk_bind (hF.keepsOk_require _ _) fun _ =>
      hF.keepsOk_bind (keepsOk_update fun _ => rfl) fun _ =>
        hF.keepsOk_bind (hF.keepsOk_lift _) fun _ =>
          hF.keepsOk_bind (keepsOk_modifyDynamicData fun _ _ _ => rfl) fun _ =>
            hF.keepsOk_bind (statistics_depositCashback _ _) fun _ =>
              hF.keepsOk_bind (statistics_depositCashback _ _) fun _ => statistics_depositCashback _ _

theorem paid_clearPending {account : ℕ} {a : AccountStatistics} {s s' : Books} {u : Unit}
    (ha : s.statistics.lookup account = some a)
    (h : modifyStatistics account (fun a => { a with pendingFees := 0, pendingVestedFees := 0 }) s =
      .ok u s') : Paid s (Asset.vec ⟨-(a.pendingFees + a.pendingVestedFees), core⟩) s' := by
  obtain ⟨a', ha', rfl⟩ := modifyStatistics_ok h
  rw [ha] at ha'
  cases ha'
  refine ⟨rfl, ?_, id, id, fun hs => hs.insert _ ⟨le_rfl, le_rfl⟩, rfl⟩
  change _ + _ + pendingFees (s.statistics.insert account _) = _
  unfold pendingFees
  rw [Table.total_insert_of_lookup _ _ ha, vec_neg_amount, Asset.vec_add,
    Asset.vec_of_zero (a := ⟨0, core⟩) rfl]
  abel

/-- **`process_fees`** hands out the fees that an account has paid. -/
theorem shared_processFees {account : ℕ} {s s' : Books} {u : Unit} (hcore : CoreIssued s)
    (hs : PendingNonneg s.statistics) (h : processFees account s = .ok u s') : Shared s 0 s' := by
  unfold processFees at h
  rw [get_bind] at h
  obtain ⟨a, ha, h⟩ := require_bind_eq_ok.mp h
  obtain ⟨hpending, hvested⟩ := hs account a ha
  split at h
  · obtain ⟨_, s₁, hfirst, h⟩ := bind_eq_ok.mp h
    obtain ⟨_, s₂, hsecond, hclear⟩ := bind_eq_ok.mp h
    have h₁ := shared_payOutFees hcore hpending hfirst
    have h₂ := h₁.trans hcore (shared_payOutFees (h₁.coreIssued hcore) hvested hsecond)
    have ha₂ : s₂.statistics.lookup account = some a := by
      rw [statistics_payOutFees _ _ _ _ _ hsecond, statistics_payOutFees _ _ _ _ _ hfirst]
      exact ha
    refine (h₂.trans hcore (shared_paid (paid_clearPending ha₂ hclear))).cast ?_
    omega
  · obtain ⟨-, rfl⟩ := pure_eq_ok.mp h
    exact Shared.refl s

theorem shared_forM_processFees {accounts : List ℕ} {s s' : Books} {u : PUnit} (hcore : CoreIssued s)
    (hs : Sound s) (h : accounts.forM processFees s = .ok u s') : Shared s 0 s' := by
  induction accounts generalizing s with
  | nil =>
    obtain ⟨-, rfl⟩ := pure_eq_ok.mp h
    exact Shared.refl s
  | cons account accounts ih =>
    obtain ⟨_, s₁, hfirst, hrest⟩ := bind_eq_ok.mp h
    have h₁ := shared_processFees hcore hs.pending hfirst
    exact (h₁.trans hcore (ih (h₁.coreIssued hcore) (hs.of_aside (h₁.aside hcore)) hrest)).cast
      (add_zero 0)

/-! ### Fees of blind transfers -/

theorem shared_clearFba {i : ℕ} {f : FbaAccumulator} {s s' : Books} {u : Unit}
    (hf : s.fbas.lookup i = some f) (h : clearFba i s = .ok u s') :
    Shared s (-f.accumulatedFbaFees) s' := by
  unfold clearFba at h
  obtain rfl := update_eq_ok.mp h
  refine ⟨rfl, ?_, fun _ _ => rfl, fun x hx => ⟨x, hx, le_rfl⟩,
    fun hs => ⟨hs.balances, hs.funds, hs.pending⟩, id, ?_, fun _ w hw => ⟨w, hw, rfl⟩⟩
  · unfold Books.wealth Books.worth Books.reserves
    rw [Table.total_modify _ _ hf, vec_neg_amount, Asset.vec_of_zero (a := ⟨0, core⟩) rfl]
    abel
  · intro hs id' f' hf'
    change (s.fbas.modify i _).lookup id' = some f' at hf'
    rw [Table.lookup_modify] at hf'
    split at hf'
    · rw [hf] at hf'
      cases hf'
      exact le_rfl
    · exact hs id' f' hf'

theorem fbas_changeCoreSupply (x : ℤ) :
    KeepsOk (fun s s' : Books => s'.fbas = s.fbas) (changeCoreSupply x) :=
  keepsOk_modifyDynamicData fun _ _ _ => rfl

/-- **`split_fba_balance`** hands out what the accumulator holds. -/
theorem shared_splitFbaBalance {S : Settings} {i network buybackPct issuerPct : ℕ} {s s' : Books}
    {u : Unit} (hs : Regular s) (h : splitFbaBalance S i network buybackPct issuerPct s = .ok u s') :
    Shared s 0 s' := by
  have hcore := hs.toCoreIssued
  unfold splitFbaBalance at h
  obtain ⟨-, h⟩ := assert_bind_eq_ok.mp h
  rw [get_bind] at h
  obtain ⟨f, hf, h⟩ := require_bind_eq_ok.mp h
  have hnonneg := hs.fbas i f hf
  split at h
  · obtain ⟨-, rfl⟩ := pure_eq_ok.mp h
    exact Shared.refl s
  split at h
  · obtain ⟨_, s₁, hburn, hclear⟩ := bind_eq_ok.mp h
    have hf₁ : s₁.fbas.lookup i = some f := by
      rw [fbas_changeCoreSupply _ _ _ _ hburn]
      exact hf
    exact ((shared_changeCoreSupply hnonneg hburn).trans hcore (shared_clearFba hf₁ hclear)).cast
      (add_neg_cancel _)
  obtain ⟨buyback, -, h⟩ := lift_bind_eq_ok.mp h
  obtain ⟨issuer, -, h⟩ := lift_bind_eq_ok.mp h
  obtain ⟨hle, h⟩ := assert_bind_eq_ok.mp h
  obtain ⟨designated, -, h⟩ := require_bind_eq_ok.mp h
  obtain ⟨buybackAccount, -, h⟩ := require_bind_eq_ok.mp h
  obtain ⟨_, s₁, hburn, h⟩ := bind_eq_ok.mp h
  obtain ⟨_, s₂, hbuyback, h⟩ := bind_eq_ok.mp h
  obtain ⟨_, s₃, hissuer, hclear⟩ := bind_eq_ok.mp h
  have hburned := shared_changeCoreSupply (sub_nonneg.mpr hle) hburn
  have hpaid := paid_adjustBalance hbuyback
  have hpaid' := paid_adjustBalance hissuer
  have hf₃ : s₃.fbas.lookup i = some f := by
    rw [hpaid'.rest, hpaid.rest]
    change s₁.fbas.lookup i = some f
    rw [fbas_changeCoreSupply _ _ _ _ hburn]
    exact hf
  refine (((hburned.trans hcore (shared_paid hpaid)).trans hcore (shared_paid hpaid')).trans hcore
    (shared_clearFba hf₃ hclear)).cast ?_
  omega

theorem shared_distributeFbaBalances {S : Settings} {s s' : Books} {u : Unit} (hs : Regular s)
    (h : distributeFbaBalances S s = .ok u s') : Shared s 0 s' := by
  unfold distributeFbaBalances at h
  obtain ⟨_, s₁, hfirst, h⟩ := bind_eq_ok.mp h
  obtain ⟨_, s₂, hsecond, hthird⟩ := bind_eq_ok.mp h
  have hcore := hs.toCoreIssued
  have h₁ := shared_splitFbaBalance hs hfirst
  have h₂ := (h₁.trans hcore (shared_splitFbaBalance (h₁.regular hs) hsecond)).cast (add_zero 0)
  exact (h₂.trans hcore (shared_splitFbaBalance (h₂.regular hs) hthird)).cast (add_zero 0)

/-! ### Workers -/

theorem shared_workers {i : ℕ} (s : Books) (worker : WorkerType) :
    Shared s 0 { s with workers := s.workers.modify i fun w => { w with worker := worker } } where
  rest := rfl
  wealth := by
    rw [Asset.vec_of_zero rfl, add_zero]
    rfl
  supply _ _ := rfl
  shrinks x hx := ⟨x, hx, le_rfl⟩
  nonneg hs := ⟨hs.balances, hs.funds, hs.pending⟩
  vesting := id
  fbas := id
  pays i' w' hw' := by
    change (s.workers.modify i _).lookup i' = some w' at hw'
    rw [Index.lookup_modify] at hw'
    split at hw'
    · next hi =>
      obtain ⟨w, hw, rfl⟩ := Option.map_eq_some_iff.mp hw'
      exact ⟨w, by rw [hi]; exact hw, rfl⟩
    · exact ⟨w', hw', rfl⟩

theorem shared_payWorker {i : ℕ} {pay : ℤ} {worker : WorkerType} {s s' : Books} {u : Unit}
    (hcore : CoreIssued s) (hpay : 0 ≤ pay) (h : worker.payWorker i pay s = .ok u s') :
    Shared s pay s' := by
  cases worker with
  | refund burned =>
    obtain ⟨_, s₁, hburn, h⟩ := bind_eq_ok.mp h
    obtain rfl := update_eq_ok.mp h
    exact ((shared_changeCoreSupply hpay hburn).trans hcore (shared_workers s₁ _)).cast (add_zero _)
  | vestingBalance balance => exact shared_depositVesting hpay h
  | burn burned =>
    obtain ⟨_, s₁, hbalance, h⟩ := bind_eq_ok.mp h
    obtain rfl := update_eq_ok.mp h
    exact ((shared_paid (paid_adjustBalance hbalance)).trans hcore (shared_workers s₁ _)).cast
      (add_zero _)

/-- The pay of a worker for the time since the last budget is a `share_type`. -/
def Worker.PayFits (w : Worker) (elapsed : ℤ) : Prop :=
  0 ≤ w.dailyPay ∧ w.dailyPay * elapsed < 2 ^ 63 * 86400

theorem Worker.requestedPay_nonneg {w : Worker} {elapsed pay : ℤ} (hw : w.PayFits elapsed)
    (helapsed : 0 ≤ elapsed) (h : w.requestedPay elapsed = .ok pay) : 0 ≤ pay := by
  obtain ⟨hpay, hfits⟩ := hw
  unfold requestedPay at h
  split at h
  · cases h
    exact hpay
  cases hquotient : toUint64 (uint128 (uint128 w.dailyPay * (elapsed * 10 ^ 6)) / (86400 * 10 ^ 6)) with
  | error e =>
    rw [hquotient] at h
    cases h
  | ok r =>
    rw [hquotient] at h
    cases h
    have hr := toUint64_eq_ok hquotient
    have hproduct : uint128 (uint128 w.dailyPay * (elapsed * 10 ^ 6)) ≤
        w.dailyPay * elapsed * 10 ^ 6 :=
      calc uint128 (uint128 w.dailyPay * (elapsed * 10 ^ 6))
          ≤ uint128 w.dailyPay * (elapsed * 10 ^ 6) :=
            uint128_le (mul_nonneg (uint128_nonneg _) (by omega))
        _ ≤ w.dailyPay * (elapsed * 10 ^ 6) :=
            mul_le_mul_of_nonneg_right (uint128_le hpay) (by omega)
        _ = w.dailyPay * elapsed * 10 ^ 6 := by ring
    have hnonneg := uint128_nonneg (uint128 w.dailyPay * (elapsed * 10 ^ 6))
    have hbounds : 0 ≤ r ∧ r < 2 ^ 63 := by
      rw [hr]
      omega
    rw [int64_of_lt hbounds.1 hbounds.2]
    exact hbounds.1

/-- **The loop of `pay_workers`** hands out what is missing from the budget afterwards. -/
theorem shared_payWorkerList {elapsed budget leftover : ℤ} {ws : List (ℕ × Worker)} {s s' : Books}
    (hcore : CoreIssued s) (helapsed : 0 < budget → 0 ≤ elapsed)
    (hws : ∀ e ∈ ws, e.2.PayFits elapsed) (hbudget : 0 ≤ budget)
    (h : payWorkerList elapsed ws budget s = .ok leftover s') :
    Shared s (budget - leftover) s' ∧ 0 ≤ leftover := by
  induction ws generalizing s budget with
  | nil =>
    obtain ⟨rfl, rfl⟩ := pure_eq_ok.mp h
    exact ⟨(Shared.refl s).cast (sub_self _).symm, hbudget⟩
  | cons e ws ih =>
    unfold payWorkerList at h
    split at h
    · next hpos =>
      obtain ⟨requested, hrequested, h⟩ := lift_bind_eq_ok.mp h
      obtain ⟨_, s₁, hpay, hrest⟩ := bind_eq_ok.mp h
      have hnonneg := Worker.requestedPay_nonneg (hws e List.mem_cons_self) (helapsed hpos) hrequested
      have hpaid := shared_payWorker hcore (by omega) hpay
      obtain ⟨hlist, hleft⟩ := ih (hpaid.coreIssued hcore) (fun _ => helapsed hpos)
        (fun e' he' => hws e' (List.mem_cons_of_mem _ he')) (by omega) hrest
      refine ⟨(hpaid.trans hcore hlist).cast ?_, hleft⟩
      omega
    · obtain ⟨rfl, rfl⟩ := pure_eq_ok.mp h
      exact ⟨(Shared.refl s).cast (sub_self _).symm, hbudget⟩

/-! ### The budget -/

/-- Programs that leave the fees of core alone. -/
theorem coreFees_payWorkerList (elapsed : ℤ) (ws : List (ℕ × Worker)) (budget : ℤ) :
    KeepsOk (fun s s' : Books => (s'.dynamicData.lookup core).map AssetDynamicData.accumulatedFees =
      (s.dynamicData.lookup core).map AssetDynamicData.accumulatedFees)
      (payWorkerList elapsed ws budget) := by
  have hF := Frame.eq fun s : Books =>
    (s.dynamicData.lookup core).map AssetDynamicData.accumulatedFees
  have hworker : ∀ i pay (worker : WorkerType), KeepsOk (fun s s' : Books =>
      (s'.dynamicData.lookup core).map AssetDynamicData.accumulatedFees =
        (s.dynamicData.lookup core).map AssetDynamicData.accumulatedFees)
      (worker.payWorker i pay) := by
    intro i pay worker
    cases worker with
    | refund burned =>
      refine hF.keepsOk_bind (keepsOk_modifyDynamicData fun s d hd => ?_) fun _ =>
        keepsOk_update fun _ => rfl
      change ((s.dynamicData.insert core _).lookup core).map _ = _
      rw [AList.lookup_insert, hd]
      rfl
    | vestingBalance balance => exact keepsOk_depositVesting hF (fun _ _ => rfl) _ _
    | burn burned =>
      refine hF.keepsOk_bind (fun s u s' h => ?_) fun _ => keepsOk_update fun _ => rfl
      obtain ⟨t, rfl, -⟩ := adjustBalance_ok h
      rfl
  induction ws generalizing budget with
  | nil => exact hF.keepsOk_pure _
  | cons e ws ih =>
    unfold payWorkerList
    split
    · exact hF.keepsOk_bind (hF.keepsOk_lift _) fun _ =>
        hF.keepsOk_bind (hworker _ _ _) fun _ => ih _
    · exact hF.keepsOk_pure _

/-- **The budget** is not negative and not more than the reserve. -/
theorem Books.totalBudget_ok {s : Books} {reserve total : ℤ} (hreserve : 0 ≤ reserve)
    (hfits : FitsShare reserve) (h : s.totalBudget reserve = .ok total) :
    0 ≤ total ∧ total ≤ reserve := by
  unfold totalBudget at h
  split at h
  · cases h
    exact ⟨le_rfl, hreserve⟩
  have hsame : uint128 reserve = reserve :=
    uint128_of_lt hreserve (lt_trans hfits.2 (by decide))
  simp only at h
  split at h
  · next hlt =>
    rw [toUint64_eq_ok h]
    rw [hsame] at hlt ⊢
    exact ⟨Int.ediv_nonneg (uint128_nonneg _) (by decide), hlt.le⟩
  · cases h
    exact ⟨hreserve, le_rfl⟩

theorem Books.workerBudget_ok {s : Books} {available budget : ℤ} (havailable : 0 ≤ available)
    (hfits : available < 2 ^ 63) (h : s.workerBudget available = .ok budget) :
    0 ≤ budget ∧ budget ≤ available := by
  have hsame : uint128 available = available :=
    uint128_of_lt havailable (lt_trans hfits (by decide))
  unfold workerBudget at h
  simp only at h
  split at h
  · cases h
    exact ⟨havailable, le_rfl⟩
  · next hlt =>
    rw [toUint64_eq_ok h]
    rw [hsame] at hlt
    exact ⟨Int.ediv_nonneg (uint128_nonneg _) (by decide), (not_le.mp hlt).le⟩

theorem Books.elapsed_of_totalBudget {s : Books} {reserve total : ℤ} (htotal : 0 < total)
    (h : s.totalBudget reserve = .ok total) : (0 : ℤ) ≤ s.headTime - s.lastBudgetTime := by
  unfold totalBudget at h
  split at h
  · cases h
    exact absurd htotal (lt_irrefl 0)
  · next hlater =>
    rw [not_or, not_le] at hlater
    omega

theorem uint64_le {x : ℤ} (h : 0 ≤ x) : uint64 x ≤ x := by
  unfold uint64
  omega

theorem uint64_nonneg (x : ℤ) : 0 ≤ uint64 x := Int.emod_nonneg _ (by decide)

/-- The pay of the witnesses until the next maintenance is a `share_type`. -/
structure Books.WitnessPayFits (s : Books) : Prop where
  pay_nonneg : 0 ≤ s.parameters.witnessPayPerBlock
  interval_pos : 0 < s.parameters.blockInterval
  later : s.headTime < s.nextMaintenanceTime
  fits : s.parameters.witnessPayPerBlock *
    ((s.nextMaintenanceTime - s.headTime + s.parameters.blockInterval - 1 : ℤ) /
      s.parameters.blockInterval) < 2 ^ 63

theorem Books.requestedWitnessBudget_nonneg {s : Books} (h : s.WitnessPayFits) :
    0 ≤ s.requestedWitnessBudget := by
  obtain ⟨hpay, hinterval, hlater, hfits⟩ := h
  have htime : uint64 (s.nextMaintenanceTime - s.headTime) ≤
      (s.nextMaintenanceTime - s.headTime : ℤ) := uint64_le (by omega)
  have htime_nonneg := uint64_nonneg (s.nextMaintenanceTime - s.headTime)
  have hrounded : uint64 (uint64 (s.nextMaintenanceTime - s.headTime) + s.parameters.blockInterval - 1) ≤
      (s.nextMaintenanceTime - s.headTime + s.parameters.blockInterval - 1 : ℤ) :=
    (uint64_le (by omega)).trans (by omega)
  have hblocks := Int.ediv_le_ediv (by omega : (0 : ℤ) < s.parameters.blockInterval) hrounded
  have hblocks_nonneg : 0 ≤ uint64 (uint64 (s.nextMaintenanceTime - s.headTime) +
      s.parameters.blockInterval - 1) / (s.parameters.blockInterval : ℤ) :=
    Int.ediv_nonneg (uint64_nonneg _) (Int.natCast_nonneg _)
  unfold requestedWitnessBudget
  simp only
  rw [int64_of_lt (mul_nonneg hpay hblocks_nonneg)
    (lt_of_le_of_lt (mul_le_mul_of_nonneg_left hblocks hpay) hfits)]
  exact mul_nonneg hpay hblocks_nonneg

theorem Books.lt_followingMaintenance {s : Books} (h : 0 < s.parameters.maintenanceInterval)
    (firstBlock : Bool) : s.headTime < s.followingMaintenance firstBlock := by
  unfold followingMaintenance
  split
  · next hlater => exact hlater
  · next hnow =>
    split
    · rw [Nat.mul_comm]
      exact Nat.lt_mul_div_succ _ h
    · have hnext := Nat.lt_mul_div_succ (s.headTime - s.nextMaintenanceTime) h
      rw [Nat.mul_comm] at hnext
      omega

/-- What `process_budget` writes when the workers are paid. -/
def AssetDynamicData.budgeted (d : AssetDynamicData) (x : ℤ) : AssetDynamicData :=
  { d with currentSupply := d.currentSupply + x, accumulatedFees := 0 }

theorem processBudget_ok {s s' : Books} {u : Unit} (h : processBudget s = .ok u s') :
    ∃ a d reserve total workers leftover s₁ d₁,
      s.assets.lookup core = some a ∧ s.dynamicData.lookup core = some d ∧
      toShare (a.options.maxSupply - d.currentSupply + d.accumulatedFees + s.witnessBudget) =
        .ok reserve ∧
      s.totalBudget reserve = .ok total ∧
      s.workerBudget (total - min s.requestedWitnessBudget total) = .ok workers ∧
      payWorkers workers s = .ok leftover s₁ ∧ s₁.dynamicData.lookup core = some d₁ ∧
      s' = { s₁ with
        dynamicData := s₁.dynamicData.insert core (d₁.budgeted (min s.requestedWitnessBudget total +
          workers - leftover - d.accumulatedFees - s.witnessBudget))
        witnessBudget := min s.requestedWitnessBudget total
        lastBudgetTime := s₁.headTime } := by
  unfold processBudget at h
  rw [get_bind] at h
  obtain ⟨a, ha, h⟩ := require_bind_eq_ok.mp h
  obtain ⟨d, hd, h⟩ := require_bind_eq_ok.mp h
  obtain ⟨reserve, hreserve, h⟩ := lift_bind_eq_ok.mp h
  obtain ⟨total, htotal, h⟩ := lift_bind_eq_ok.mp h
  obtain ⟨workers, hworkers, h⟩ := lift_bind_eq_ok.mp h
  obtain ⟨leftover, s₁, hpay, h⟩ := bind_eq_ok.mp h
  obtain ⟨_, s₂, hmodify, h⟩ := bind_eq_ok.mp h
  obtain ⟨d₁, hd₁, rfl⟩ := modifyDynamicData_ok hmodify
  obtain rfl := update_eq_ok.mp h
  exact ⟨a, d, reserve, total, workers, leftover, s₁, d₁, ha, hd, hreserve, htotal, hworkers, hpay, hd₁, rfl⟩

/-! Whatever the pay is, the market is left alone. -/

/-- Steps beside the market, as long as core is not market-issued. -/
def AsideCore (s s' : Books) : Prop := CoreIssued s → Aside s s' ∧ s'.fbas = s.fbas

theorem asideFrame : Frame AsideCore where
  refl s _ := ⟨Aside.refl s, rfl⟩
  trans h₁ h₂ hcore :=
    ⟨(h₁ hcore).1.trans (h₂ (hcore.of_aside (h₁ hcore).1)).1,
      (h₂ (hcore.of_aside (h₁ hcore).1)).2.trans (h₁ hcore).2⟩

/-- The data of core change, with fees that are not negative. -/
theorem asideCore_dynamicData {s : Books} {d d' : AssetDynamicData}
    (hd : s.dynamicData.lookup core = some d)
    (hfunds : 0 ≤ d.accumulatedFees ∧ 0 ≤ d.feePool → 0 ≤ d'.accumulatedFees ∧ 0 ≤ d'.feePool) :
    AsideCore s { s with dynamicData := s.dynamicData.insert core d' } := by
  intro hcore
  refine ⟨⟨rfl, rfl, rfl, rfl, rfl, fun k hk => ?_, fun hs => ⟨hs.balances, ?_, hs.pending⟩⟩, rfl⟩
  · refine (supplyOf_insert _ _ _ _).trans (if_neg ?_)
    rintro rfl
    exact hk hcore.bitasset
  · exact hs.funds.insert _ (hfunds (hs.funds _ _ hd))

/-- What is not part of the market changes. -/
theorem asideCore_rest {s s' : Books}
    (h : s' = { s with
      vestingBalances := s'.vestingBalances, workers := s'.workers, witnessBudget := s'.witnessBudget
      lastBudgetTime := s'.lastBudgetTime, parameters := s'.parameters
      nextMaintenanceTime := s'.nextMaintenanceTime }) : AsideCore s s' := by
  intro _
  rw [h]
  exact ⟨⟨rfl, rfl, rfl, rfl, rfl, fun _ _ => rfl, fun hs => ⟨hs.balances, hs.funds, hs.pending⟩⟩, rfl⟩

theorem asideCore_payWorker (i : ℕ) (pay : ℤ) (worker : WorkerType) :
    KeepsOk AsideCore (worker.payWorker i pay) := by
  cases worker with
  | refund burned =>
    exact asideFrame.keepsOk_bind
      (keepsOk_modifyDynamicData fun s d hd => asideCore_dynamicData hd id) fun _ =>
        keepsOk_update fun _ => asideCore_rest rfl
  | vestingBalance balance =>
    exact keepsOk_depositVesting asideFrame (fun _ _ => asideCore_rest rfl) _ _
  | burn burned =>
    refine asideFrame.keepsOk_bind (fun s u s' h _ => ?_) fun _ =>
      keepsOk_update fun _ => asideCore_rest rfl
    have hpaid := paid_adjustBalance h
    refine ⟨hpaid.aside, ?_⟩
    rw [hpaid.rest]

theorem asideCore_payWorkerList (elapsed : ℤ) (ws : List (ℕ × Worker)) (budget : ℤ) :
    KeepsOk AsideCore (payWorkerList elapsed ws budget) := by
  induction ws generalizing budget with
  | nil => exact asideFrame.keepsOk_pure _
  | cons e ws ih =>
    unfold payWorkerList
    split
    · exact asideFrame.keepsOk_bind (asideFrame.keepsOk_lift _) fun _ =>
        asideFrame.keepsOk_bind (asideCore_payWorker _ _ _) fun _ => ih _
    · exact asideFrame.keepsOk_pure _

theorem asideCore_budgeted {s : Books} {d : AssetDynamicData} (x : ℤ)
    (hd : s.dynamicData.lookup core = some d) :
    AsideCore s { s with dynamicData := s.dynamicData.insert core (d.budgeted x) } :=
  asideCore_dynamicData hd fun hfunds => ⟨le_rfl, hfunds.2⟩

theorem asideCore_processBudget : KeepsOk AsideCore processBudget := by
  intro s u s' h
  obtain ⟨a, d, reserve, total, workers, leftover, s₁, d₁, -, -, -, -, -, hpay, hd₁, rfl⟩ :=
    processBudget_ok h
  refine asideFrame.trans (asideCore_payWorkerList _ _ _ s leftover s₁ hpay) ?_
  have hbudgeted := asideCore_budgeted (min s.requestedWitnessBudget total + workers - leftover -
    d.accumulatedFees - s.witnessBudget) hd₁
  exact asideFrame.trans hbudgeted (asideCore_rest rfl)

/-! ### The budget keeps the sum -/

theorem shared_payWorkers {budget leftover : ℤ} {s s' : Books} (hcore : CoreIssued s)
    (helapsed : 0 < budget → (0 : ℤ) ≤ s.headTime - s.lastBudgetTime)
    (hpays : ∀ id w, s.workers.lookup id = some w → w.PayFits (s.headTime - s.lastBudgetTime))
    (hbudget : 0 ≤ budget) (h : payWorkers budget s = .ok leftover s') :
    Shared s (budget - leftover) s' ∧ 0 ≤ leftover := by
  refine shared_payWorkerList hcore helapsed (fun e he => ?_) hbudget h
  -- the workers that are paid are among all workers
  have hmem := List.mem_of_mem_filter ((List.mem_insertionSort workerBefore).mp he)
  exact hpays e.1 e.2 (Index.lookup_of_mem_entries hmem)

/-- Fees that go back to the reserve, and a new witness budget. -/
theorem wealth_budgeted {s : Books} {d : AssetDynamicData} {x b : ℤ} {time : ℕ}
    (hd : s.dynamicData.lookup core = some d) :
    Books.wealth { s with
        dynamicData := s.dynamicData.insert core (d.budgeted x)
        witnessBudget := b
        lastBudgetTime := time } =
      s.wealth + Asset.vec ⟨b - s.witnessBudget - x - d.accumulatedFees, core⟩ := by
  have hfunds : fundsLessSupply (s.dynamicData.insert core (d.budgeted x)) =
      fundsLessSupply s.dynamicData - Asset.vec ⟨x + d.accumulatedFees, core⟩ := by
    unfold fundsLessSupply AssetDynamicData.budgeted
    rw [Table.total_insert_of_lookup _ _ hd, Asset.vec_of_zero (a := ⟨0, core⟩) rfl]
    simp only [Asset.vec_add]
    abel
  unfold Books.wealth Books.worth Books.reserves
  simp only
  rw [hfunds]
  simp only [Asset.vec_add, Asset.vec_sub]
  abel

/-- What the budget needs. -/
structure Books.PaysFit (s : Books) : Prop where
  witnesses : 0 ≤ s.requestedWitnessBudget
  workers : ∀ id w, s.workers.lookup id = some w → w.PayFits (s.headTime - s.lastBudgetTime)

theorem toShare_eq_ok {x y : ℤ} (h : toShare x = .ok y) : y = x ∧ FitsShare x := by
  unfold toShare at h
  split at h
  · next hfits =>
    cases h
    exact ⟨rfl, hfits⟩
  · cases h

/-- What a maintenance keeps of the books, and of the supplies. -/
structure Maintained (s s' : Books) : Prop where
  solvent : Solvent s'
  wealth : s'.wealth = s.wealth
  withinMax : s'.WithinMax core (s'.supply core)
  supply : ∀ k, k ≠ core → supplyOf s'.dynamicData k = supplyOf s.dynamicData k
  assets : s'.assets = s.assets
  lockData : s'.lockData = s.lockData
  lockedBalances : s'.lockedBalances = s.lockedBalances

/-- **`process_budget`** pays out of the reserve: what is held beyond the supply stays the same, and
the supply within its maximum. -/
theorem processBudget_maintained {s s' : Books} {u : Unit} (hs : Solvent s) (hpays : s.PaysFit)
    (hcap : ∀ supply, supplyOf s.dynamicData core = some supply → s.WithinMax core supply)
    (h : processBudget s = .ok u s') : Maintained s s' := by
  have haside := asideCore_processBudget s u s' h hs.toCoreIssued
  obtain ⟨a, d, reserve, total, workers, leftover, s₁, d₁, ha, hd, hreserve, htotal, hworkers, hpay,
    hd₁, rfl⟩ := processBudget_ok h
  obtain ⟨rfl, hfits⟩ := toShare_eq_ok hreserve
  have hmax := hcap d.currentSupply (supplyOf_of_lookup hd) a ha
  have hfees := (hs.funds core d hd).1
  have hbudget := hs.witnessBudget
  obtain ⟨htotal_nonneg, htotal_le⟩ := Books.totalBudget_ok (by omega) hfits htotal
  have hwitnesses := hpays.witnesses
  have htotal_lt : total < 2 ^ 63 := lt_of_le_of_lt htotal_le hfits.2
  obtain ⟨hworkers_nonneg, hworkers_le⟩ := Books.workerBudget_ok (by omega) (by omega) hworkers
  obtain ⟨hshared, hleftover⟩ := shared_payWorkers hs.toCoreIssued
    (fun hpos => Books.elapsed_of_totalBudget (by omega) htotal) hpays.workers hworkers_nonneg hpay
  have hsame : d₁.accumulatedFees = d.accumulatedFees := by
    have hkept : (s₁.dynamicData.lookup core).map AssetDynamicData.accumulatedFees =
        (s.dynamicData.lookup core).map AssetDynamicData.accumulatedFees :=
      coreFees_payWorkerList _ _ _ s leftover s₁ hpay
    rw [hd, hd₁] at hkept
    exact Option.some.inj hkept
  have hrest : s₁.witnessBudget = s.witnessBudget ∧ s₁.assets = s.assets ∧
      s₁.lockData = s.lockData ∧ s₁.lockedBalances = s.lockedBalances := by
    rw [hshared.rest]
    exact ⟨rfl, rfl, rfl, rfl⟩
  have hs₁ := hshared.solvent hs
  refine ⟨?_, ?_, ?_, fun k hk => ?_, hrest.2.1, hrest.2.2.1, hrest.2.2.2⟩
  · have hsound := hs.toSound.of_aside haside.1
    exact
      { hsound, hs.toCoreIssued.of_aside haside.1, hs₁.toLockSafe.of_eq hsound.balances rfl rfl with
        locks := hs₁.locks
        vesting := hs₁.vesting
        fbas := by
          rw [haside.2]
          exact hs.fbas
        witnessBudget := le_min hwitnesses htotal_nonneg }
  · rw [wealth_budgeted hd₁, hshared.wealth, hrest.1, hsame, add_assoc, ← Asset.vec_add,
      Asset.vec_of_zero, add_zero]
    dsimp only
    omega
  · intro a' ha'
    change s₁.assets.lookup core = some a' at ha'
    rw [hrest.2.1, ha] at ha'
    cases ha'
    obtain ⟨x, hx, hle⟩ := hshared.shrinks d₁.currentSupply (supplyOf_of_lookup hd₁)
    rw [supplyOf_of_lookup hd] at hx
    cases hx
    change (supplyOf (s₁.dynamicData.insert core (d₁.budgeted _)) core).getD 0 ≤ a.options.maxSupply
    rw [supplyOf_insert, if_pos rfl, Option.getD_some]
    unfold AssetDynamicData.budgeted
    dsimp only
    omega
  · change supplyOf (s₁.dynamicData.insert core _) k = _
    rw [supplyOf_insert, if_neg hk]
    exact hshared.supply k hk

/-! ### The whole maintenance -/

theorem postings_resetVolumes {L : Licence} (s : Books) : Postings L s 0 s.resetVolumes := by
  unfold Books.resetVolumes
  generalize s.bitassets.keys = ks
  induction ks generalizing s with
  | nil => exact Postings.refl s
  | cons k ks ih =>
    have hreset := postings_forceSettledVolume (L := L) k 0 s
    exact (hreset.trans (ih _)).cast (add_zero 0)

/-- The books with the parameters of the next interval, and its end. -/
def Books.nextInterval (s : Books) (parameters : ChainParameters) (firstBlock : Bool) : Books :=
  { s with
    parameters := parameters
    nextMaintenanceTime :=
      Books.followingMaintenance { s with parameters := parameters } firstBlock }

theorem performChainMaintenance_ok {S : Settings} {accounts : List ℕ} {parameters : ChainParameters}
    {firstBlock : Bool} {s s' : Books} {u : Unit} (hs : Regular s)
    (h : performChainMaintenance S accounts parameters firstBlock s = .ok u s') :
    ∃ s₁, Shared s 0 s₁ ∧ processBudget (s₁.nextInterval parameters firstBlock).resetVolumes = .ok u s' := by
  unfold performChainMaintenance at h
  obtain ⟨_, s₁, hfbas, h⟩ := bind_eq_ok.mp h
  obtain ⟨_, s₂, hfees, h⟩ := bind_eq_ok.mp h
  rw [update_bind, update_bind, update_bind] at h
  have h₁ := shared_distributeFbaBalances hs hfbas
  have h₂ := shared_forM_processFees (h₁.coreIssued hs.toCoreIssued) (h₁.regular hs).toSound hfees
  exact ⟨s₂, (h₁.trans hs.toCoreIssued h₂).cast (add_zero 0), h⟩

/-- Parameters as `chain_parameters::validate` leaves them, with pay that is not negative. -/
structure ChainParameters.Valid (p : ChainParameters) : Prop where
  blockInterval_pos : 0 < p.blockInterval
  maintenanceInterval_gt : p.blockInterval < p.maintenanceInterval
  pay_nonneg : 0 ≤ p.witnessPayPerBlock

/-- What the witnesses and the workers ask for at a maintenance are amounts of type `share_type`. -/
structure Books.PayFits (s : Books) (parameters : ChainParameters) (firstBlock : Bool) : Prop where
  witnesses : parameters.witnessPayPerBlock *
    (((s.nextInterval parameters firstBlock).nextMaintenanceTime - s.headTime +
      parameters.blockInterval - 1 : ℤ) / parameters.blockInterval) < 2 ^ 63
  workers : ∀ id w, s.workers.lookup id = some w → w.PayFits (s.headTime - s.lastBudgetTime)

/-- What an interval begins with, when nothing but core was shared out before. -/
theorem Shared.paysFit {s s₁ : Books} {v : ℤ} {parameters : ChainParameters} {firstBlock : Bool}
    (h : Shared s v s₁) (hvalid : parameters.Valid) (hfits : s.PayFits parameters firstBlock) :
    (s₁.nextInterval parameters firstBlock).resetVolumes.PaysFit := by
  have hsame : s₁.headTime = s.headTime ∧ s₁.lastBudgetTime = s.lastBudgetTime ∧
      s₁.nextMaintenanceTime = s.nextMaintenanceTime := by
    rw [h.rest]
    exact ⟨rfl, rfl, rfl⟩
  have hnext : (s₁.nextInterval parameters firstBlock).nextMaintenanceTime =
      (s.nextInterval parameters firstBlock).nextMaintenanceTime := by
    unfold Books.nextInterval Books.followingMaintenance
    simp only
    rw [hsame.1, hsame.2.2]
  refine ⟨Books.requestedWitnessBudget_nonneg ⟨hvalid.pay_nonneg, hvalid.blockInterval_pos, ?_, ?_⟩, ?_⟩
  · exact Books.lt_followingMaintenance (s := { s₁ with parameters := parameters })
      (lt_trans hvalid.blockInterval_pos hvalid.maintenanceInterval_gt) firstBlock
  · change parameters.witnessPayPerBlock *
      (((s₁.nextInterval parameters firstBlock).nextMaintenanceTime - s₁.headTime +
        parameters.blockInterval - 1 : ℤ) / parameters.blockInterval) < 2 ^ 63
    rw [hnext, hsame.1]
    exact hfits.witnesses
  · intro id w hw
    obtain ⟨w', hw', hpay⟩ := h.pays id w hw
    have hold := hfits.workers id w' hw'
    change w.PayFits (s₁.headTime - s₁.lastBudgetTime)
    unfold Worker.PayFits at hold ⊢
    rw [hpay, hsame.1, hsame.2.1]
    exact hold

theorem Solvent.nextInterval {s : Books} (hs : Solvent s) (parameters : ChainParameters)
    (firstBlock : Bool) : Solvent (s.nextInterval parameters firstBlock) :=
  { hs with }

/-- **The maintenance** keeps what is held beyond the supply, nothing that is held becomes negative,
and the supply of core stays within its maximum. -/
theorem maintenance_maintained {S : Settings} {accounts : List ℕ} {parameters : ChainParameters}
    {firstBlock : Bool} {s s' : Books} {u : Unit} (hs : Solvent s) (hvalid : parameters.Valid)
    (hfits : s.PayFits parameters firstBlock)
    (hcap : ∀ supply, supplyOf s.dynamicData core = some supply → s.WithinMax core supply)
    (h : performChainMaintenance S accounts parameters firstBlock s = .ok u s') : Maintained s s' := by
  obtain ⟨s₁, hshared, hbudget⟩ := performChainMaintenance_ok hs.toRegular h
  have hs₁ := (hshared.solvent hs).nextInterval parameters firstBlock
  have hreset := postings_resetVolumes (L := ⟨True, True, fun _ => True⟩)
    (s₁.nextInterval parameters firstBlock)
  have hsame : s₁.assets = s.assets ∧ s₁.lockData = s.lockData ∧
      s₁.lockedBalances = s.lockedBalances := by
    rw [hshared.rest]
    exact ⟨rfl, rfl, rfl⟩
  have hcap₁ : ∀ supply, supplyOf s₁.dynamicData core = some supply → s₁.WithinMax core supply := by
    intro supply hsupply a ha
    obtain ⟨x, hx, hle⟩ := hshared.shrinks supply hsupply
    rw [hsame.1] at ha
    exact hle.trans (hcap x hx a ha)
  have hlast :=
    processBudget_maintained (hreset.solvent hs₁) (hshared.paysFit hvalid hfits) hcap₁ hbudget
  refine ⟨hlast.solvent, ?_, hlast.withinMax, fun k hk => ?_, hlast.assets.trans hsame.1,
    hlast.lockData.trans hsame.2.1, hlast.lockedBalances.trans hsame.2.2⟩
  · calc s'.wealth = (s₁.nextInterval parameters firstBlock).resetVolumes.wealth := hlast.wealth
      _ = (s₁.nextInterval parameters firstBlock).wealth + 0 := hreset.wealth hs₁.toSound
      _ = s₁.wealth := add_zero _
      _ = s.wealth := by rw [hshared.wealth, Asset.vec_of_zero rfl, add_zero]
  · exact (hlast.supply k hk).trans (hshared.supply k hk)

end FinChain.Ledger
