import FinChain.Ledger.ActionEffects

/-!
# The stake in orders

An account votes with the core it holds, and that includes the core it has put into orders: what its
limit orders have for sale, and the collateral of its margin positions. The sum is not taken over the
orders when votes are counted. `total_core_in_orders` is kept along with them, and adjusted by hand
wherever an order is created, filled or removed.

What the adjustments have to achieve is that the `drift` stays at zero, the difference of the number
that is kept and of what the orders say. All actions but one do: a call order that is filled
completely returns what is left of its collateral, and `fill_order` takes that off the borrower's
total whether it is core or not. So the stake is exact in every run that does not come to that place
with collateral in another asset (`stake_exact`).
-/

namespace FinChain.Ledger

open Exec

/-! ### What orders say -/

/-- An amount of an account, if it is in core. -/
def coreOf (account : ℕ) (a : Asset) : ℕ → ℤ :=
  if a.assetId = core then Pi.single account a.amount else 0

theorem coreOf_add (account k : ℕ) (x y : ℤ) :
    coreOf account ⟨x + y, k⟩ = coreOf account ⟨x, k⟩ + coreOf account ⟨y, k⟩ := by
  unfold coreOf
  split
  · exact Pi.single_add _ _ _
  · rw [add_zero]

theorem coreOf_sub (account k : ℕ) (x y : ℤ) :
    coreOf account ⟨x - y, k⟩ = coreOf account ⟨x, k⟩ - coreOf account ⟨y, k⟩ := by
  unfold coreOf
  split
  · exact Pi.single_sub _ _ _
  · rw [sub_zero]

theorem coreOf_zero (account k : ℕ) : coreOf account ⟨0, k⟩ = 0 := by
  unfold coreOf
  split
  · exact Pi.single_zero _
  · rfl

def LimitOrder.stake (o : LimitOrder) : ℕ → ℤ := coreOf o.seller o.amountForSale

def CallOrder.stake (o : CallOrder) : ℕ → ℤ := coreOf o.borrower o.getCollateral

/-- The core for sale in the limit orders of an account, and the core that is collateral of its call
orders. -/
def Books.stakeInOrders (s : Books) : ℕ → ℤ :=
  s.limitOrders.total (fun _ o => o.stake) + s.callOrders.total fun _ o => o.stake

/-- By how much `total_core_in_orders` is off. -/
def Books.drift (s : Books) : ℕ → ℤ := s.coreInOrders - s.stakeInOrders

section Drift

variable {s s₁ s' : Books}

theorem drift_createLimit (s : Books) (o : LimitOrder) :
    Books.drift { s with limitOrders := s.limitOrders.create o } = s.drift - o.stake := by
  unfold Books.drift Books.stakeInOrders
  rw [Index.total_create]
  change s.coreInOrders - _ = _
  abel

theorem drift_modifyLimit {id : ℕ} {o : LimitOrder} (g : LimitOrder → LimitOrder)
    (h : s.limitOrders.lookup id = some o) :
    Books.drift { s with limitOrders := s.limitOrders.modify id g } =
      s.drift + o.stake - (g o).stake := by
  unfold Books.drift Books.stakeInOrders
  rw [Index.total_modify _ _ h]
  change s.coreInOrders - _ = _
  abel

theorem drift_eraseLimit {id : ℕ} {o : LimitOrder} (h : s.limitOrders.lookup id = some o) :
    Books.drift { s with limitOrders := s.limitOrders.erase id } = s.drift + o.stake := by
  unfold Books.drift Books.stakeInOrders
  rw [Index.total_erase _ h]
  change s.coreInOrders - _ = _
  abel

theorem drift_createCall (s : Books) (o : CallOrder) :
    Books.drift { s with callOrders := s.callOrders.create o } = s.drift - o.stake := by
  unfold Books.drift Books.stakeInOrders
  rw [Index.total_create]
  change s.coreInOrders - _ = _
  abel

theorem drift_modifyCall {id : ℕ} {o : CallOrder} (g : CallOrder → CallOrder)
    (h : s.callOrders.lookup id = some o) :
    Books.drift { s with callOrders := s.callOrders.modify id g } =
      s.drift + o.stake - (g o).stake := by
  unfold Books.drift Books.stakeInOrders
  rw [Index.total_modify _ _ h]
  change s.coreInOrders - _ = _
  abel

theorem drift_eraseCall {id : ℕ} {o : CallOrder} (h : s.callOrders.lookup id = some o) :
    Books.drift { s with callOrders := s.callOrders.erase id } = s.drift + o.stake := by
  unfold Books.drift Books.stakeInOrders
  rw [Index.total_erase _ h]
  change s.coreInOrders - _ = _
  abel

/-! ### What is kept -/

/-- A step that changes `total_core_in_orders` by `δ` and leaves the orders alone. -/
structure Tracks (δ : ℕ → ℤ) (s s' : Books) : Prop where
  coreInOrders : s'.coreInOrders = s.coreInOrders + δ
  limitOrders : s'.limitOrders = s.limitOrders
  callOrders : s'.callOrders = s.callOrders

theorem Tracks.of_offOrders (h : OffOrders s s') : Tracks 0 s s' :=
  ⟨by rw [h.coreInOrders, add_zero], h.limitOrders, h.callOrders⟩

theorem Tracks.of_quiet (h : Quiet s s') : Tracks 0 s s' := .of_offOrders h.toOffOrders

theorem Tracks.trans {δ δ' : ℕ → ℤ} (h : Tracks δ s s₁) (h' : Tracks δ' s₁ s') :
    Tracks (δ + δ') s s' where
  coreInOrders := by rw [h'.coreInOrders, h.coreInOrders, add_assoc]
  limitOrders := h'.limitOrders.trans h.limitOrders
  callOrders := h'.callOrders.trans h.callOrders

theorem Tracks.drift {δ : ℕ → ℤ} (h : Tracks δ s s') : s'.drift = s.drift + δ := by
  unfold Books.drift Books.stakeInOrders
  rw [h.coreInOrders, h.limitOrders, h.callOrders]
  abel

theorem tracks_modifyStatistics {account : ℕ} {g : AccountStatistics → AccountStatistics} {δ : ℤ}
    {u : Unit} (hg : ∀ a, (g a).totalCoreInOrders = a.totalCoreInOrders + δ)
    (h : modifyStatistics account g s = .ok u s') : Tracks (Pi.single account δ) s s' := by
  obtain ⟨a, ha, rfl⟩ := modifyStatistics_ok h
  refine ⟨?_, rfl, rfl⟩
  rw [Books.coreInOrders_insert, hg, ← Books.coreInOrders_of_lookup ha]
  funext account'
  by_cases haccount : account' = account
  · rw [haccount, Function.update_self, Pi.add_apply, Pi.single_eq_same]
  · rw [Function.update_of_ne haccount, Pi.add_apply, Pi.single_eq_of_ne haccount, add_zero]

/-- An adjustment of the code that asks whether the amount is in core. -/
theorem tracks_into {account : ℕ} {a : Asset} {u : Unit}
    (h : modifyStatistics account (LimitOrderCreate.intoOrders a) s = .ok u s') :
    Tracks (coreOf account a) s s' := by
  unfold coreOf
  split
  · next hcore =>
    refine tracks_modifyStatistics (fun x => ?_) h
    rw [LimitOrderCreate.intoOrders, if_pos hcore]
  · next hcore =>
    refine .of_quiet (quiet_modifyStatistics (fun x => ?_) s u s' h)
    rw [LimitOrderCreate.intoOrders, if_neg hcore]

theorem tracks_outOf {account : ℕ} {a : Asset} {u : Unit}
    (h : modifyStatistics account (AccountStatistics.outOfOrders a) s = .ok u s') :
    Tracks (-coreOf account a) s s' := by
  unfold coreOf
  split
  · next hcore =>
    rw [← Pi.single_neg]
    refine tracks_modifyStatistics (fun x => ?_) h
    rw [AccountStatistics.outOfOrders, if_pos hcore]
    rfl
  · next hcore =>
    rw [neg_zero]
    refine .of_quiet (quiet_modifyStatistics (fun x => ?_) s u s' h)
    rw [AccountStatistics.outOfOrders, if_neg hcore]

end Drift

/-! ### Limit orders -/

section Limits

variable {s s' : Books}

theorem LimitOrderCreate.drift_place {op : LimitOrderCreate} {f : ℤ} {id : ℕ}
    (h : op.place f s = .ok id s') : s'.drift = s.drift := by
  unfold place at h
  obtain ⟨_, s₁, hinto, h⟩ := bind_eq_ok.mp h
  obtain ⟨_, s₂, hsell, h⟩ := bind_eq_ok.mp h
  have htracks := (tracks_into hinto).trans (.of_quiet (quiet_adjustBalance _ _ _ _ _ hsell))
  unfold createOrder at h
  rw [get_bind] at h
  obtain ⟨price, hprice, h⟩ := lift_bind_eq_ok.mp h
  obtain ⟨_, s₃, hcreate, h⟩ := bind_eq_ok.mp h
  obtain ⟨-, rfl⟩ := pure_eq_ok.mp h
  obtain rfl := update_eq_ok.mp hcreate
  have hbase : price.base = op.amountToSell := by
    unfold Asset.div at hprice
    split at hprice
    · cases hprice
      rfl
    · cases hprice
  rw [drift_createLimit, htracks.drift]
  unfold LimitOrder.stake LimitOrder.amountForSale
  simp only [hbase]
  abel

theorem drift_cancelLimitOrder {id : ℕ} {u : Unit} (h : cancelLimitOrder id s = .ok u s') :
    s'.drift = s.drift := by
  unfold cancelLimitOrder at h
  rw [get_bind] at h
  obtain ⟨o, ho, h⟩ := require_bind_eq_ok.mp h
  obtain ⟨_, s₁, hout, h⟩ := bind_eq_ok.mp h
  obtain ⟨_, s₂, hrefund, h⟩ := bind_eq_ok.mp h
  obtain ⟨_, s₃, hfee, h⟩ := bind_eq_ok.mp h
  obtain rfl := update_eq_ok.mp h
  have hquiet := quietFrame.trans (quiet_adjustBalance _ _ _ _ _ hrefund)
    (quiet_adjustBalance _ _ _ _ _ hfee)
  have htracks := (tracks_outOf hout).trans (.of_quiet hquiet)
  have ho₃ : s₃.limitOrders.lookup id = some o := by
    rw [htracks.limitOrders]
    exact ho
  rw [drift_eraseLimit ho₃, htracks.drift]
  unfold LimitOrder.stake
  abel

/-- The order is gone or smaller; it may be culled. -/
theorem drift_reduceLimitOrder {id : ℕ} {o : LimitOrder} {pays : Asset} {cull filled : Bool}
    (ho : s.limitOrders.lookup id = some o) (hpays : o.sellPrice.base.assetId = pays.assetId)
    (h : reduceLimitOrder id o pays cull s = .ok filled s') :
    s'.drift = s.drift + coreOf o.seller pays := by
  unfold reduceLimitOrder at h
  split at h
  · next hall =>
    obtain ⟨_, s₁, herase, h⟩ := bind_eq_ok.mp h
    obtain ⟨-, rfl⟩ := pure_eq_ok.mp h
    obtain rfl := update_eq_ok.mp herase
    rw [drift_eraseLimit ho, hall]
    rfl
  · obtain ⟨_, s₁, hmodify, h⟩ := bind_eq_ok.mp h
    obtain rfl := update_eq_ok.mp hmodify
    have hreduced : Books.drift { s with
        limitOrders := s.limitOrders.modify id fun o =>
          { o with forSale := o.forSale - pays.amount, deferredFee := 0 } } =
        s.drift + coreOf o.seller pays := by
      rw [drift_modifyLimit _ ho]
      unfold LimitOrder.stake LimitOrder.amountForSale
      rw [coreOf_sub, hpays]
      abel
    rw [← hreduced]
    split at h
    · unfold maybeCullSmallOrder at h
      rw [get_bind] at h
      obtain ⟨o', -, h⟩ := require_bind_eq_ok.mp h
      obtain ⟨receives, -, h⟩ := lift_bind_eq_ok.mp h
      split at h
      · obtain ⟨_, s₂, hcancel, h⟩ := bind_eq_ok.mp h
        obtain ⟨-, rfl⟩ := pure_eq_ok.mp h
        exact drift_cancelLimitOrder hcancel
      · obtain ⟨-, rfl⟩ := pure_eq_ok.mp h
        rfl
    · obtain ⟨-, rfl⟩ := pure_eq_ok.mp h
      rfl

theorem drift_fillLimitOrder {id : ℕ} {pays receives : Asset} {cull filled : Bool}
    (h : fillLimitOrder id pays receives cull s = .ok filled s') : s'.drift = s.drift := by
  unfold fillLimitOrder at h
  rw [get_bind] at h
  obtain ⟨o, ho, h⟩ := require_bind_eq_ok.mp h
  obtain ⟨hpays, h⟩ := assert_bind_eq_ok.mp h
  obtain ⟨-, h⟩ := assert_bind_eq_ok.mp h
  obtain ⟨fee, s₁, hmarket, h⟩ := bind_eq_ok.mp h
  obtain ⟨_, s₂, hpay, h⟩ := bind_eq_ok.mp h
  obtain ⟨_, s₃, hdeferred, h⟩ := bind_eq_ok.mp h
  have hpaid : Tracks (-coreOf o.seller pays) s₁ s₂ := by
    obtain ⟨_, t, hout, hreceive⟩ := bind_eq_ok.mp hpay
    have htracks := (tracks_outOf hout).trans (.of_quiet (quiet_adjustBalance _ _ _ _ _ hreceive))
    rwa [add_zero] at htracks
  have hdue : Quiet s₂ s₃ :=
    keepsOk_ite (quiet_payFee _ _) (quietFrame.keepsOk_pure ()) s₂ _ s₃ hdeferred
  have htracks := ((Tracks.of_quiet (quiet_payMarketFees _ _ _ _ hmarket)).trans hpaid).trans
    (.of_quiet hdue)
  have ho₃ : s₃.limitOrders.lookup id = some o := by
    rw [htracks.limitOrders]
    exact ho
  rw [drift_reduceLimitOrder ho₃ hpays h, htracks.drift]
  abel

end Limits

/-! ### Call orders -/

section Calls

variable {s s' : Books}

/-- **Where the code goes wrong.** A call order is filled completely, collateral is left, and it is not
in core. -/
def Books.FreesOther (s : Books) (id : ℕ) (pays receives : Asset) : Prop :=
  ∃ o, s.callOrders.lookup id = some o ∧ o.callPrice.base.assetId ≠ core ∧
    receives.amount = o.debt ∧ pays.amount < o.collateral

theorem tracks_release {borrower : ℕ} {freed : Option Asset} {pays : Asset} {u : Unit}
    (h : modifyStatistics borrower (AccountStatistics.release freed pays) s = .ok u s') :
    Tracks (-Pi.single borrower (max 0 ((freed.map Asset.amount).getD 0)) - coreOf borrower pays)
      s s' := by
  unfold coreOf
  split
  · next hcore =>
    rw [← Pi.single_neg, ← Pi.single_sub]
    refine tracks_modifyStatistics (fun a => ?_) h
    rw [AccountStatistics.release, AccountStatistics.outOfOrders, if_pos hcore]
    change a.totalCoreInOrders - _ - _ = _
    omega
  · next hcore =>
    rw [← Pi.single_neg, sub_zero]
    refine tracks_modifyStatistics (fun a => ?_) h
    rw [AccountStatistics.release, AccountStatistics.outOfOrders, if_neg hcore]
    rfl

/-- What is taken off the total of the borrower. -/
theorem tracks_releaseCollateral {borrower : ℕ} {freed : Option Asset} {pays : Asset} {u : Unit}
    (h : releaseCollateral borrower pays freed s = .ok u s') :
    Tracks (-Pi.single borrower (max 0 ((freed.map Asset.amount).getD 0)) - coreOf borrower pays)
      s s' := by
  cases freed with
  | some freed =>
    obtain ⟨_, s₁, hreturn, h⟩ := bind_eq_ok.mp h
    have htracks := (Tracks.of_quiet (quiet_adjustBalance _ _ _ _ _ hreturn)).trans (tracks_release h)
    rwa [zero_add] at htracks
  | none =>
    simp only [releaseCollateral] at h
    split at h
    · exact tracks_release h
    · next hcore =>
      obtain ⟨-, rfl⟩ := pure_eq_ok.mp h
      have hzero : -Pi.single borrower (max 0 ((Option.map Asset.amount none).getD 0)) -
          coreOf borrower pays = (0 : ℕ → ℤ) := by
        unfold coreOf
        rw [if_neg hcore, Option.map_none, Option.getD_none, max_self, Pi.single_zero, neg_zero,
          sub_zero]
      rw [hzero]
      exact .of_quiet (quietFrame.refl s)

/-- **`fill_order` of a call order** keeps the total exact, but for the one case. -/
theorem drift_fillCallOrder {id : ℕ} {pays receives : Asset} {filled : Bool}
    (hfrees : ¬ s.FreesOther id pays receives) (h : fillCallOrder id pays receives s = .ok filled s') :
    s'.drift = s.drift := by
  unfold fillCallOrder at h
  rw [get_bind] at h
  obtain ⟨o, ho, h⟩ := require_bind_eq_ok.mp h
  obtain ⟨-, h⟩ := assert_bind_eq_ok.mp h
  obtain ⟨hpays, h⟩ := assert_bind_eq_ok.mp h
  obtain ⟨hle, h⟩ := assert_bind_eq_ok.mp h
  obtain ⟨_, s₁, hreduce, h⟩ := bind_eq_ok.mp h
  obtain rfl := update_eq_ok.mp hreduce
  obtain ⟨_, s₂, hsupply, h⟩ := bind_eq_ok.mp h
  obtain ⟨_, s₃, hrelease, h⟩ := bind_eq_ok.mp h
  have htracks := (Tracks.of_quiet (quiet_modifyDynamicData (by intro; rfl) _ _ _ hsupply)).trans
    (tracks_releaseCollateral hrelease)
  have hpays' : coreOf o.borrower pays = coreOf o.borrower ⟨pays.amount, o.callPrice.base.assetId⟩ :=
    congrArg (coreOf o.borrower) (show pays = ⟨pays.amount, o.callPrice.base.assetId⟩ by
      rw [show o.callPrice.base.assetId = pays.assetId from hpays])
  by_cases hdebt : o.debt - receives.amount = 0
  · -- the order is closed, and its collateral is free
    simp only [CallOrder.freed, CallOrder.getCollateral, if_pos hdebt, Option.map_some,
      Option.getD_some] at htracks h
    obtain ⟨_, s₄, herase, h⟩ := bind_eq_ok.mp h
    obtain ⟨-, rfl⟩ := pure_eq_ok.mp h
    obtain rfl := update_eq_ok.mp herase
    have ho₃ : s₃.callOrders.lookup id = some { o with debt := 0, collateral := 0 } := by
      rw [htracks.callOrders]
      change (s.callOrders.modify id _).lookup id = _
      rw [Index.lookup_modify, if_pos rfl, ho, hdebt]
      rfl
    have hempty : CallOrder.stake { o with debt := 0, collateral := 0 } = 0 := coreOf_zero _ _
    rw [drift_eraseCall ho₃, htracks.drift, drift_modifyCall _ ho, hempty, zero_add, add_zero]
    change s.drift + o.stake - coreOf o.borrower ⟨0, _⟩ + _ = s.drift
    rw [coreOf_zero, sub_zero, hpays']
    have hstake : o.stake = Pi.single o.borrower (max 0 (o.collateral - pays.amount)) +
        coreOf o.borrower ⟨pays.amount, o.callPrice.base.assetId⟩ := by
      have hfreed : max 0 (o.collateral - pays.amount) = o.collateral - pays.amount :=
        max_eq_right (Int.sub_nonneg.mpr hle)
      rw [hfreed]
      unfold CallOrder.stake CallOrder.getCollateral
      by_cases hcore : o.callPrice.base.assetId = core
      · unfold coreOf
        rw [if_pos hcore, if_pos hcore, ← Pi.single_add, sub_add_cancel]
      · have hnone : pays.amount = o.collateral := by
          by_contra hne
          exact hfrees ⟨o, ho, hcore, by omega, by omega⟩
        rw [hnone, sub_self, Pi.single_zero, zero_add]
    rw [hstake]
    abel
  · -- the order is smaller
    simp only [CallOrder.freed, if_neg hdebt, Option.map_none, Option.getD_none] at htracks h
    obtain ⟨-, rfl⟩ := pure_eq_ok.mp h
    rw [htracks.drift, drift_modifyCall _ ho, max_self, Pi.single_zero, hpays']
    change s.drift + coreOf o.borrower ⟨o.collateral, _⟩ -
      coreOf o.borrower ⟨o.collateral - pays.amount, _⟩ + _ = _
    rw [coreOf_sub]
    abel

end Calls

/-! ### Positions -/

section Positions

variable {s s' : Books}

theorem CallOrderUpdate.quiet_moveDebt (op : CallOrderUpdate) : KeepsOk Quiet op.moveDebt :=
  keepsOk_ite (quietFrame.keepsOk_pure ()) <|
    quietFrame.keepsOk_bind (quiet_adjustBalance _ _) fun _ => quiet_modifyDynamicData fun _ => rfl

theorem CallOrderUpdate.tracks_moveCollateral {op : CallOrderUpdate} {u : Unit}
    (h : op.moveCollateral s = .ok u s') :
    Tracks (coreOf op.fundingAccount op.deltaCollateral) s s' := by
  unfold moveCollateral at h
  split at h
  · next hzero =>
    obtain ⟨-, rfl⟩ := pure_eq_ok.mp h
    have hnone : coreOf op.fundingAccount op.deltaCollateral = 0 := by
      rw [show op.deltaCollateral = ⟨0, op.deltaCollateral.assetId⟩ by rw [← hzero]]
      exact coreOf_zero _ _
    rw [hnone]
    exact .of_quiet (quietFrame.refl s)
  · obtain ⟨_, s₁, htake, h⟩ := bind_eq_ok.mp h
    have htaken := Tracks.of_quiet (quiet_adjustBalance _ _ _ _ _ htake)
    unfold trackCollateral at h
    split at h
    · have htracks := htaken.trans (tracks_into h)
      rwa [zero_add] at htracks
    · next hcore =>
      obtain ⟨-, rfl⟩ := pure_eq_ok.mp h
      unfold coreOf
      rw [if_neg hcore]
      exact htaken

theorem Price.callPrice_assets {debt collateral : Asset} {ratio : ℕ} {p : Price}
    (h : callPrice debt collateral ratio = .ok p) :
    p.base.assetId = collateral.assetId ∧ p.quote.assetId = debt.assetId := by
  unfold callPrice at h
  split at h
  · cases h
  · unfold Asset.div at h
    simp only at h
    split at h
    · cases h
      exact ⟨rfl, rfl⟩
    · cases h

/-- **What changing a position does.** -/
theorem CallOrderUpdate.position_ok {op : CallOrderUpdate} {b : BitassetData} {id : ℕ}
    (h : op.position b s = .ok id s') :
    ∃ s₁, Tracks (coreOf op.fundingAccount op.deltaCollateral) s s₁ ∧
      ((s.findCall op.fundingAccount op.deltaDebt.assetId = none ∧ ∃ price,
          Price.callPrice op.deltaDebt op.deltaCollateral
            b.currentFeed.maintenanceCollateralRatio = .ok price ∧ id = s.callOrders.next ∧
          s' = { s₁ with
            callOrders := s.callOrders.create
              ⟨op.fundingAccount, op.deltaCollateral.amount, op.deltaDebt.amount, price⟩ }) ∨
        ∃ o changed, s.findCall op.fundingAccount op.deltaDebt.assetId = some (id, o) ∧
          priced (op.change o) b = .ok changed ∧
          s' = { s₁ with callOrders := s.callOrders.modify id fun _ => changed }) := by
  unfold position at h
  obtain ⟨_, s₀, hdebt, h⟩ := bind_eq_ok.mp h
  obtain ⟨_, s₁, hcollateral, h⟩ := bind_eq_ok.mp h
  rw [get_bind] at h
  have htracks := (Tracks.of_quiet (op.quiet_moveDebt s _ s₀ hdebt)).trans
    (tracks_moveCollateral hcollateral)
  rw [zero_add] at htracks
  have hcalls := htracks.callOrders
  have hfind : s₁.findCall op.fundingAccount op.deltaDebt.assetId =
      s.findCall op.fundingAccount op.deltaDebt.assetId := by
    unfold Books.findCall
    rw [hcalls]
  rw [hfind] at h
  refine ⟨s₁, htracks, ?_⟩
  rw [← hcalls]
  cases hfound : s.findCall op.fundingAccount op.deltaDebt.assetId with
  | none =>
    rw [hfound] at h
    simp only [changePosition] at h
    unfold openPosition at h
    rw [get_bind] at h
    obtain ⟨-, h⟩ := assert_bind_eq_ok.mp h
    obtain ⟨-, h⟩ := assert_bind_eq_ok.mp h
    obtain ⟨price, hprice, h⟩ := lift_bind_eq_ok.mp h
    obtain ⟨_, s₂, hcreate, h⟩ := bind_eq_ok.mp h
    obtain ⟨rfl, rfl⟩ := pure_eq_ok.mp h
    exact .inl ⟨rfl, price, hprice, rfl, update_eq_ok.mp hcreate⟩
  | some e =>
    obtain ⟨i, o⟩ := e
    rw [hfound] at h
    simp only [changePosition] at h
    obtain ⟨changed, hchanged, h⟩ := lift_bind_eq_ok.mp h
    obtain ⟨_, s₂, hmodify, h⟩ := bind_eq_ok.mp h
    obtain ⟨rfl, rfl⟩ := pure_eq_ok.mp h
    exact .inr ⟨o, changed, rfl, hchanged, update_eq_ok.mp hmodify⟩

/-- The collateral of a position changes by what was taken. -/
theorem CallOrderUpdate.stake_priced {op : CallOrderUpdate} {b : BitassetData} {o changed : CallOrder}
    (hborrower : o.borrower = op.fundingAccount)
    (hbacking : o.callPrice.base.assetId = op.deltaCollateral.assetId)
    (h : priced (op.change o) b = .ok changed) :
    changed.stake = o.stake + coreOf op.fundingAccount op.deltaCollateral := by
  have hsame : changed.borrower = o.borrower ∧
      changed.callPrice.base.assetId = o.callPrice.base.assetId ∧
      changed.collateral = o.collateral + op.deltaCollateral.amount := by
    rcases priced_cases h with ⟨-, price, hprice, rfl⟩ | ⟨-, rfl⟩
    · exact ⟨rfl, (Price.callPrice_assets hprice).1, rfl⟩
    · exact ⟨rfl, rfl, rfl⟩
  obtain ⟨hborrower', hbase, hsum⟩ := hsame
  unfold CallOrder.stake CallOrder.getCollateral
  rw [hborrower', hbase, hsum, coreOf_add, hborrower, hbacking]

theorem CallOrderUpdate.drift_position {op : CallOrderUpdate} {b : BitassetData} {id : ℕ}
    (hbacking : ∀ i o, s.findCall op.fundingAccount op.deltaDebt.assetId = some (i, o) →
      o.callPrice.base.assetId = op.deltaCollateral.assetId)
    (h : op.position b s = .ok id s') : s'.drift = s.drift := by
  obtain ⟨s₁, htracks, ⟨-, price, hprice, -, rfl⟩ | ⟨o, changed, hfound, hchanged, rfl⟩⟩ :=
    position_ok h
  · rw [← htracks.callOrders, drift_createCall, htracks.drift]
    unfold CallOrder.stake CallOrder.getCollateral
    simp only [(Price.callPrice_assets hprice).1]
    abel
  · have ho : s₁.callOrders.lookup id = some o := by
      rw [htracks.callOrders]
      exact (Books.findCall_ok hfound).1
    rw [← htracks.callOrders, drift_modifyCall _ ho, htracks.drift,
      stake_priced (Books.findCall_borrower hfound) (hbacking id o hfound) hchanged]
    abel

end Positions

/-! ### Runs -/

/-- The action does not return collateral in another asset as if it were core. -/
def Action.TracksStake (s : Books) : Action → Prop
  | fillCall id pays receives => ¬ s.FreesOther id pays receives
  | _ => True

/-- **One action keeps the stake exact.** -/
theorem Does.drift {S : Settings} {a : Action} {s s' : Books} (hC : a.TracksStake s)
    (h : Does S a s s') : s'.drift = s.drift := by
  cases h with
  | quiet h => rw [(Tracks.of_quiet h).drift, add_zero]
  | place h => exact LimitOrderCreate.drift_place h
  | cancel h => exact drift_cancelLimitOrder h
  | fillLimit h => exact drift_fillLimitOrder h
  | fillCall h => exact drift_fillCallOrder hC h
  | position _ hbacking h _ => exact CallOrderUpdate.drift_position hbacking h
  | @close id o s ho _ hcollateral =>
    have hempty : o.stake = 0 := by
      unfold CallOrder.stake CallOrder.getCollateral
      rw [hcollateral, coreOf_zero]
    rw [drift_eraseCall ho, hempty, add_zero]
  | bitasset | newBitasset => rfl
  | lock h => rw [(Tracks.of_offOrders (offOrders_lockFrame.run _ _ _ _ h)).drift, add_zero]

/-- **The stake in orders is exact** in every run that returns no collateral in another asset as if it
were core. -/
theorem stake_exact {S : Settings} {s₀ s : Books}
    (hexact : ∀ account, s₀.coreInOrders account = s₀.stakeInOrders account)
    (h : Traced S (fun s a => a.TracksStake s) s₀ s) (account : ℕ) :
    s.coreInOrders account = s.stakeInOrders account := by
  have hzero : s₀.drift = 0 := by
    unfold Books.drift
    rw [sub_eq_zero]
    exact funext hexact
  have hdrift : s.drift = 0 := by
    refine h.keep (I := fun s => s.drift = 0) ?_ ?_ hzero
    · intro s a s' hC hdoes hs
      rw [hdoes.drift hC, hs]
    · intro s s' hquiet hs
      rw [(Tracks.of_quiet hquiet).drift, hs, add_zero]
  unfold Books.drift at hdrift
  exact congrFun (sub_eq_zero.mp hdrift) account

section Example

/-- The collateral of the first account is its stake. -/
theorem stake_smallChain (account : ℕ) :
    smallChain.coreInOrders account = smallChain.stakeInOrders account := by
  by_cases h : account = 10
  · rw [h]
    decide
  · by_cases h' : account = 11
    · rw [h']
      decide
    · have hnone : smallChain.statistics.lookup account = none := by
        rw [AList.lookup_eq_none]
        change account ∉ [10, 11]
        simp [h, h']
      have hcalls : smallChain.stakeInOrders = Pi.single 10 4000 := by
        change 0 + (coreOf 10 ⟨4000, core⟩ + 0) = _
        rw [zero_add, add_zero]
        rfl
      unfold Books.coreInOrders
      rw [hnone, hcalls, Pi.single_eq_of_ne h]
      rfl

/-- All collateral is core. -/
private def AllCore (s : Books) : Prop :=
  ∀ id o, s.callOrders.lookup id = some o → o.callPrice.base.assetId = core

/-- The position of the first account is settled, and it gets half of its collateral back. -/
theorem stake_exact_settled :
    (afterEvents [settleAll]).coreInOrders 10 = (afterEvents [settleAll]).stakeInOrders 10 ∧
      (afterEvents [settleAll]).coreInOrders 10 = 0 := by
  have hrun := run_afterEvents [] (e := settleAll) (by decide +kernel)
  have hfits : (afterEvents [settleAll]).Fits :=
    fits_afterEvents (by decide +kernel) (by decide +kernel)
  have hactions := Event.actions genesis_smallChain.solvent.toSound hrun
  have htracks : Actions smallSettings (fun s a => a.TracksStake s) smallChain
      (afterEvents [settleAll]) := by
    refine hactions.strengthen (I := AllCore) ?_ (Table.forall_of_entries (by decide +kernel))
    intro s a s' hof hdoes hs
    refine ⟨?_, ?_⟩
    · cases hdoes with
      | fillCall h =>
        rintro ⟨o, ho, hother, -⟩
        exact hother (hs _ o ho)
      | quiet | place | cancel | fillLimit | position | close | bitasset | newBitasset | lock => trivial
    · rcases hdoes.callOrders with hsame | ⟨id, pays, receives, rfl⟩ | ⟨op, b, rfl⟩ | ⟨id, rfl⟩
      · intro id o ho
        rw [hsame] at ho
        exact hs id o ho
      · cases hdoes with
        | fillCall h =>
          obtain ⟨o, ho, -, hcalls⟩ := fillCallOrder_calls h
          intro i o' ho'
          rw [hcalls] at ho'
          split at ho'
          · rw [Index.lookup_erase] at ho'
            split at ho'
            · cases ho'
            · exact hs i o' ho'
          · rw [Index.lookup_modify] at ho'
            split at ho'
            · rw [ho] at ho'
              cases ho'
              exact hs id o ho
            · exact hs i o' ho'
      · cases hof
      · obtain ⟨op, hop⟩ := hof
        cases hop
  have htraced : Traced smallSettings (fun s a => a.TracksStake s) smallChain
      (afterEvents [settleAll]) :=
    (Traced.refl smallChain).event hrun htracks hfits
  exact ⟨stake_exact stake_smallChain htraced 10, by decide +kernel⟩

/-- The second account sells core. -/
private def sellCore : Event := .operation (.limitOrderCreate
  { fee := ⟨20, core⟩
    seller := 11
    amountToSell := ⟨1000, core⟩
    minToReceive := ⟨1000, 2⟩
    expiration := 1600000000
    fillOrKill := false
    amountToSell_fits := fitsShare_thousand })

/-- It creates a bitasset that is backed by its own asset. -/
private def createBacked : Event := .operation (.assetCreate
  { fee := ⟨20, core⟩
    issuer := 11
    symbol := "BACKED"
    precision := 8
    commonOptions := .plain maxShareSupply {.globalSettle} ⟨⟨1, core⟩, ⟨1, 1⟩⟩
    bitassetOpts := some ⟨86400, 1, 86400, 0, 2000, 2, Nat.one_pos, Nat.zero_le _, fifth_le_hundredPercent⟩
    isPredictionMarket := false })

private def setProducerOfBacked : Event := .operation (.assetUpdateFeedProducers
  { fee := ⟨20, core⟩, issuer := 11, assetToUpdate := 3, newFeedProducers := [11] })

private def publishBacked : Event := .operation (.assetPublishFeed
  { fee := ⟨20, core⟩
    publisher := 11
    assetId := 3
    feed := ⟨⟨⟨1, 3⟩, ⟨2, 2⟩⟩, ⟨⟨1, 3⟩, ⟨2, core⟩⟩, 1750, 1500⟩ })

private def borrowBacked : Event := .operation (.callOrderUpdate
  { fee := ⟨20, core⟩
    fundingAccount := 11
    deltaCollateral := ⟨400, 2⟩
    deltaDebt := ⟨100, 3⟩ })

private def settleBacked : Event := .operation (.assetGlobalSettle
  { fee := ⟨20, core⟩, issuer := 11, assetToSettle := 3, settlePrice := ⟨⟨1, 3⟩, ⟨2, 2⟩⟩ })

/-- The events, the last one first. -/
private def settleBackedRun : List Event :=
  [settleBacked, borrowBacked, publishBacked, setProducerOfBacked, createBacked, sellCore]

/-- The second account has 1000 of core in a limit order. When its position in the bitasset is settled,
it gets 200 of its own asset back, and its stake falls to 800. -/
theorem not_stake_exact :
    ¬ ∀ (S : Settings) (s₀ s : Books), Genesis s₀ →
      (∀ account, s₀.coreInOrders account = s₀.stakeInOrders account) →
      Traced S (fun _ _ => True) s₀ s →
      ∀ account, s.coreInOrders account = s.stakeInOrders account := by
  intro hall
  have htraced : Traced smallSettings (fun _ _ => True) smallChain (afterEvents settleBackedRun) := by
    refine ((((((Traced.refl smallChain).afterEvents ?_ ?_).afterEvents ?_ ?_).afterEvents ?_
      ?_).afterEvents ?_ ?_).afterEvents ?_ ?_).afterEvents ?_ ?_
    all_goals first
      | decide +kernel
      | exact fits_afterEvents (by decide +kernel) (by decide +kernel)
  have hexact := hall smallSettings smallChain _ genesis_smallChain stake_smallChain htraced 11
  have hkept : (afterEvents settleBackedRun).coreInOrders 11 = 800 := by decide +kernel
  have hstake : (afterEvents settleBackedRun).stakeInOrders 11 = 1000 := by decide +kernel
  rw [hkept, hstake] at hexact
  exact absurd hexact (by decide)

end Example

end FinChain.Ledger
