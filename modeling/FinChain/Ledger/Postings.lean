import FinChain.Ledger.Bitassets
import FinChain.Ledger.Effects

/-!
# Postings

What the market functions and the operations on assets can do to the books, apart from how they come
to do it. A posting changes one record, or the records that must change together: a call order and
the supply that its debt stands for, the settlement of an asset and its supply. Payments are
postings too, to balances, collected fees and fees paid (`Paid`). Every posting says by how much it
changes what is held beyond the supply, asset by asset, and a function of the source is a sequence
of postings (`Postings`) that comes to nothing, or to what it was told to pay.

So an invariant has to be shown for a posting only. `Sound` is one: the debt of the call orders of
an asset is its supply until it is settled, and once it is settled there are none and its fund
covers the supply at the price of the settlement.

A `Licence` says what else the postings of a sequence may do. Trading creates no limit order and
redeems nothing, and whoever wants to know that a supply stays within its maximum has to ask that
borrowing and new options leave it there.
-/

namespace FinChain.Ledger

open Exec

/-! ### Payments -/

/-- The supply of an asset, if the asset exists. -/
def supplyOf (t : Table ℕ AssetDynamicData) (assetId : ℕ) : Option ℤ :=
  (t.lookup assetId).map AssetDynamicData.currentSupply

/-- The collected fees and the fee pools are not negative. -/
def FundsNonneg (t : Table ℕ AssetDynamicData) : Prop :=
  ∀ assetId d, t.lookup assetId = some d → 0 ≤ d.accumulatedFees ∧ 0 ≤ d.feePool

/-- The fees paid are not negative. -/
def PendingNonneg (t : Table ℕ AccountStatistics) : Prop :=
  ∀ account a, t.lookup account = some a → 0 ≤ a.pendingFees ∧ 0 ≤ a.pendingVestedFees

/-- A payment of `v` into balances, collected fees, fee pools and fees paid. -/
structure Paid (s : Books) (v : ℕ → ℤ) (s' : Books) : Prop where
  rest : s' = { s with
    balances := s'.balances, dynamicData := s'.dynamicData, statistics := s'.statistics }
  cash : held s'.balances + fundsLessSupply s'.dynamicData + pendingFees s'.statistics =
    held s.balances + fundsLessSupply s.dynamicData + pendingFees s.statistics + v
  balances : BalancesNonneg s.balances → BalancesNonneg s'.balances
  funds : FundsNonneg s.dynamicData → FundsNonneg s'.dynamicData
  pending : PendingNonneg s.statistics → PendingNonneg s'.statistics
  supply : supplyOf s'.dynamicData = supplyOf s.dynamicData

namespace Paid

variable {s s₁ s' : Books} {v w : ℕ → ℤ}

theorem refl (s : Books) : Paid s 0 s where
  rest := rfl
  cash := (add_zero _).symm
  balances := id
  funds := id
  pending := id
  supply := rfl

theorem trans (h : Paid s v s₁) (h' : Paid s₁ w s') : Paid s (v + w) s' where
  rest := by
    rw [h'.rest, h.rest]
  cash := by
    rw [h'.cash, h.cash, add_assoc]
  balances hs := h'.balances (h.balances hs)
  funds hs := h'.funds (h.funds hs)
  pending hs := h'.pending (h.pending hs)
  supply := h'.supply.trans h.supply

theorem cast (h : Paid s v s') (hv : v = w) : Paid s w s' := hv ▸ h

/-- A payment does not depend on the call orders. -/
theorem withCalls (h : Paid s v s') (c : Index CallOrder) :
    Paid { s with callOrders := c } v { s' with callOrders := c } where
  rest := by
    rw [h.rest]
  cash := h.cash
  balances := h.balances
  funds := h.funds
  pending := h.pending
  supply := h.supply

end Paid

theorem supplyOf_of_lookup {t : Table ℕ AssetDynamicData} {k : ℕ} {d : AssetDynamicData}
    (h : t.lookup k = some d) : supplyOf t k = some d.currentSupply := by
  rw [supplyOf, h, Option.map_some]

theorem supplyOf_insert (t : Table ℕ AssetDynamicData) (assetId : ℕ) (d : AssetDynamicData) (k : ℕ) :
    supplyOf (t.insert assetId d) k = if k = assetId then some d.currentSupply else supplyOf t k := by
  unfold supplyOf
  split
  · next h => rw [h, AList.lookup_insert, Option.map_some]
  · next h => rw [AList.lookup_insert_ne h]

/-- A change of dynamic data that leaves the supply as it is. -/
theorem supplyOf_insert_of_same {t : Table ℕ AssetDynamicData} {assetId : ℕ}
    {d d' : AssetDynamicData} (h : t.lookup assetId = some d)
    (hd : d'.currentSupply = d.currentSupply) : supplyOf (t.insert assetId d') = supplyOf t := by
  funext k
  rw [supplyOf_insert]
  split
  · next hk => rw [hk, supplyOf, h, hd, Option.map_some]
  · rfl

theorem FundsNonneg.insert {t : Table ℕ AssetDynamicData} (ht : FundsNonneg t) (assetId : ℕ)
    {d : AssetDynamicData} (hd : 0 ≤ d.accumulatedFees ∧ 0 ≤ d.feePool) :
    FundsNonneg (t.insert assetId d) := by
  intro k d' h
  by_cases hk : k = assetId
  · rw [hk, AList.lookup_insert] at h
    cases h
    exact hd
  · rw [AList.lookup_insert_ne hk] at h
    exact ht k d' h

theorem PendingNonneg.insert {t : Table ℕ AccountStatistics} (ht : PendingNonneg t) (account : ℕ)
    {a : AccountStatistics} (ha : 0 ≤ a.pendingFees ∧ 0 ≤ a.pendingVestedFees) :
    PendingNonneg (t.insert account a) := by
  intro k a' h
  by_cases hk : k = account
  · rw [hk, AList.lookup_insert] at h
    cases h
    exact ha
  · rw [AList.lookup_insert_ne hk] at h
    exact ht k a' h

theorem paid_adjustBalance {account : ℕ} {delta : Asset} {s s' : Books} {u : Unit}
    (h : adjustBalance account delta s = .ok u s') : Paid s delta.vec s' := by
  obtain ⟨t, hs', htotal, -⟩ := adjustBalance_ok h
  have hnonneg : BalancesNonneg s.balances → BalancesNonneg s'.balances :=
    fun hs => adjustBalance_nonneg hs h
  subst hs'
  refine ⟨rfl, ?_, hnonneg, id, id, rfl⟩
  change held t + _ + _ = _
  rw [htotal]
  abel

/-- Statistics other than the fees paid. -/
theorem paid_modifyStatistics {account : ℕ} {g : AccountStatistics → AccountStatistics}
    {s s' : Books} {u : Unit}
    (hg : ∀ a, (g a).pendingFees = a.pendingFees ∧ (g a).pendingVestedFees = a.pendingVestedFees)
    (h : modifyStatistics account g s = .ok u s') : Paid s 0 s' := by
  obtain ⟨a, ha, rfl⟩ := modifyStatistics_ok h
  refine ⟨rfl, ?_, id, id, ?_, rfl⟩
  · change _ + _ + pendingFees (s.statistics.insert account (g a)) = _
    unfold pendingFees
    rw [Table.total_insert_of_lookup _ _ ha, (hg a).1, (hg a).2, sub_self]
    abel
  · intro hs
    refine hs.insert account ?_
    rw [(hg a).1, (hg a).2]
    exact hs account a ha

theorem AccountStatistics.payFee_nonneg {a : AccountStatistics} {threshold f : ℤ} (hf : 0 ≤ f)
    (ha : 0 ≤ a.pendingFees ∧ 0 ≤ a.pendingVestedFees) :
    0 ≤ (a.payFee threshold f).pendingFees ∧ 0 ≤ (a.payFee threshold f).pendingVestedFees := by
  unfold AccountStatistics.payFee
  split
  · exact ⟨add_nonneg ha.1 hf, ha.2⟩
  · exact ⟨ha.1, add_nonneg ha.2 hf⟩

theorem paid_payFee {account : ℕ} {f : ℤ} {s s' : Books} {u : Unit} (hf : 0 ≤ f)
    (h : payFee account f s = .ok u s') : Paid s (Asset.vec ⟨f, core⟩) s' := by
  obtain ⟨t, hs', htotal⟩ := payFee_ok h
  obtain ⟨a, ha, rfl⟩ := modifyStatistics_ok h
  have ht := congrArg Books.statistics hs'
  refine ⟨rfl, ?_, id, id, ?_, rfl⟩
  · change _ + _ + pendingFees (s.statistics.insert account _) = _
    change s.statistics.insert account _ = t at ht
    rw [ht, htotal]
    abel
  · intro hs
    exact hs.insert account (AccountStatistics.payFee_nonneg hf (hs account a ha))

/-- The fee pool was found to cover the fee. -/
theorem paid_convertFee {fee : Asset} {f : ℤ} {s s' : Books} {u : Unit} (hfee : 0 ≤ fee.amount)
    (hpool : fee.assetId ≠ core → ∀ d, s.dynamicData.lookup fee.assetId = some d → f ≤ d.feePool)
    (h : convertFee fee f s = .ok u s') :
    Paid s (if fee.assetId = core then 0 else fee.vec - Asset.vec ⟨f, core⟩) s' := by
  obtain ⟨t, hs', htotal⟩ := convertFee_ok h
  unfold convertFee at h
  split at h
  · next hid =>
    obtain ⟨-, rfl⟩ := pure_eq_ok.mp h
    rw [if_pos hid]
    exact Paid.refl s
  · next hid =>
    obtain ⟨d, hd, rfl⟩ := modifyDynamicData_ok h
    refine ⟨rfl, ?_, id, ?_, id, supplyOf_insert_of_same hd rfl⟩
    · have ht := congrArg Books.dynamicData hs'
      change s.dynamicData.insert fee.assetId _ = t at ht
      change _ + fundsLessSupply (s.dynamicData.insert fee.assetId _) + _ = _
      rw [ht, htotal]
      abel
    · intro hs
      exact hs.insert _ ⟨add_nonneg (hs _ _ hd).1 hfee, sub_nonneg.mpr (hpool hid d hd)⟩

/-- What is collected, given what an asset has collected. -/
theorem paid_collected {assetId : ℕ} {x : ℤ} {s s' : Books} {u : Unit}
    (hx : ∀ d, s.dynamicData.lookup assetId = some d → 0 ≤ d.accumulatedFees →
      0 ≤ d.accumulatedFees + x)
    (h : modifyDynamicData assetId (fun d => { d with accumulatedFees := d.accumulatedFees + x }) s =
      .ok u s') : Paid s (Asset.vec ⟨x, assetId⟩) s' := by
  obtain ⟨d, hd, rfl⟩ := modifyDynamicData_ok h
  refine ⟨rfl, ?_, id, ?_, id, supplyOf_insert_of_same hd rfl⟩
  · change _ + fundsLessSupply (s.dynamicData.insert assetId _) + _ = _
    unfold fundsLessSupply
    rw [Table.total_insert_of_lookup _ _ hd, Asset.vec_add]
    abel
  · intro hs
    exact hs.insert _ ⟨hx d hd (hs _ _ hd).1, (hs _ _ hd).2⟩

theorem paid_feePool {assetId : ℕ} {x : ℤ} {s s' : Books} {u : Unit} (hx : 0 ≤ x)
    (h : modifyDynamicData assetId (fun d => { d with feePool := d.feePool + x }) s = .ok u s') :
    Paid s (Asset.vec ⟨x, core⟩) s' := by
  obtain ⟨d, hd, rfl⟩ := modifyDynamicData_ok h
  refine ⟨rfl, ?_, id, ?_, id, supplyOf_insert_of_same hd rfl⟩
  · change _ + fundsLessSupply (s.dynamicData.insert assetId _) + _ = _
    unfold fundsLessSupply
    rw [Table.total_insert_of_lookup _ _ hd, Asset.vec_add]
    abel
  · intro hs
    exact hs.insert _ ⟨(hs _ _ hd).1, add_nonneg (hs _ _ hd).2 hx⟩

theorem calculateMarketFee_nonneg {a : AssetObject} {amount : Asset} {fee : ℤ}
    (h : calculateMarketFee a amount = .ok fee) : 0 ≤ fee := by
  unfold calculateMarketFee at h
  simp only at h
  split at h
  · cases h
    exact le_rfl
  split at h
  · cases h
    refine le_min (Int.ediv_nonneg ?_ (Int.natCast_nonneg _)) a.options.maxMarketFee_nonneg
    exact Int.emod_nonneg _ (by norm_num)
  · cases h

/-- **`pay_market_fees`** collects the fee that it returns. -/
theorem paid_payMarketFees {receives : Asset} {fee : ℤ} {s s' : Books}
    (h : payMarketFees receives s = .ok fee s') :
    Paid s (Asset.vec ⟨fee, receives.assetId⟩) s' := by
  unfold payMarketFees at h
  rw [get_bind] at h
  obtain ⟨a, -, h⟩ := require_bind_eq_ok.mp h
  obtain ⟨fee', hfee, h⟩ := lift_bind_eq_ok.mp h
  obtain ⟨_, s₁, hcollect, h⟩ := bind_eq_ok.mp h
  obtain ⟨rfl, rfl⟩ := pure_eq_ok.mp h
  have hnonneg : 0 ≤ fee' := calculateMarketFee_nonneg hfee
  unfold collectFee at hcollect
  split at hcollect
  · exact paid_collected (fun d _ hd => add_nonneg hd hnonneg) hcollect
  · next hpos =>
    obtain ⟨-, rfl⟩ := pure_eq_ok.mp hcollect
    have hzero : fee' = 0 := le_antisymm (not_lt.mp hpos) hnonneg
    exact (Paid.refl s).cast (Asset.vec_of_zero hzero).symm

/-! ### What is held -/

/-- What a limit order holds. -/
def LimitOrder.holds (o : LimitOrder) : ℕ → ℤ :=
  o.amountForSale.vec + Asset.vec ⟨o.deferredFee, core⟩

/-- What a bitasset holds. -/
def BitassetData.holds (b : BitassetData) : ℕ → ℤ := Asset.vec ⟨b.settlementFund, b.shortBackingAsset⟩

/-- The debts of all call orders. -/
def Books.debts (s : Books) : ℕ → ℤ := s.callOrders.total fun _ o => o.getDebt.vec

/-- What is held beyond the supply, asset by asset. -/
def Books.worth (s : Books) : ℕ → ℤ :=
  held s.balances + fundsLessSupply s.dynamicData + pendingFees s.statistics +
    s.limitOrders.total (fun _ o => o.holds) + s.callOrders.total (fun _ o => o.getCollateral.vec) +
    s.settlements.total (fun _ o => o.balance.vec) + s.bitassets.total fun _ b => b.holds

/-! ### Sound books -/

/-- A limit order that can be matched, with amounts that are `share_type`. -/
structure LimitOrder.Sound (o : LimitOrder) : Prop where
  forSale_pos : 0 < o.forSale
  forSale_le : o.forSale ≤ o.sellPrice.base.amount
  base_lt : o.sellPrice.base.amount < 2 ^ 63
  quote_pos : 0 < o.sellPrice.quote.amount
  quote_lt : o.sellPrice.quote.amount < 2 ^ 63
  assets_ne : o.sellPrice.base.assetId ≠ o.sellPrice.quote.assetId

/-- A price that the indices find between `price::min` and `price::max`. -/
def Price.InRange (p : Price) : Prop :=
  (1 ≤ p.base.amount ∧ p.base.amount ≤ maxShareSupply) ∧
    1 ≤ p.quote.amount ∧ p.quote.amount ≤ maxShareSupply

/-- A call order with debt. -/
structure CallOrder.Sound (o : CallOrder) : Prop where
  debt_pos : 0 < o.debt
  collateral_nonneg : 0 ≤ o.collateral
  inRange : o.callPrice.InRange

/-- The feeds have passed their validation. -/
structure BitassetData.FeedsSound (b : BitassetData) : Prop where
  feeds : ∀ publisher f, b.feeds.lookup publisher = some f →
    PriceFeed.RatioInRange f.2.maintenanceCollateralRatio
  current : PriceFeed.RatioInRange b.currentFeed.maintenanceCollateralRatio

/-- The fund of a settled asset covers its supply at the price of the settlement. -/
structure BitassetData.Covers (b : BitassetData) (assetId : ℕ) (supply : ℤ) : Prop where
  base_id : b.settlementPrice.base.assetId = assetId
  quote_id : b.settlementPrice.quote.assetId = b.shortBackingAsset
  base_pos : 0 < b.settlementPrice.base.amount
  quote_nonneg : 0 ≤ b.settlementPrice.quote.amount
  fund_nonneg : 0 ≤ b.settlementFund
  covered : supply * b.settlementPrice.quote.amount ≤ b.settlementFund * b.settlementPrice.base.amount

/-- The bitasset that a call order borrows, and that its collateral backs. -/
def Books.Lends (s : Books) (debtType backing : ℕ) : Prop :=
  ∃ b, s.bitassets.lookup debtType = some b ∧ b.hasSettlement = false ∧ b.shortBackingAsset = backing

/-- The invariant of the books. -/
structure Sound (s : Books) : Prop where
  balances : BalancesNonneg s.balances
  funds : FundsNonneg s.dynamicData
  pending : PendingNonneg s.statistics
  limits : ∀ id o, s.limitOrders.lookup id = some o → o.Sound
  settlements : ∀ id o, s.settlements.lookup id = some o → 0 ≤ o.balance.amount
  calls : ∀ id o, s.callOrders.lookup id = some o →
    o.Sound ∧ s.Lends o.debtType o.callPrice.base.assetId
  feeds : ∀ k b, s.bitassets.lookup k = some b → b.FeedsSound
  unsettled : ∀ k b, s.bitassets.lookup k = some b → b.hasSettlement = false →
    b.settlementFund = 0 ∧ supplyOf s.dynamicData k = some (s.debts k)
  settled : ∀ k b, s.bitassets.lookup k = some b → b.hasSettlement = true →
    ∃ supply, supplyOf s.dynamicData k = some supply ∧ b.Covers k supply

/-! ### Postings -/

/-- What postings may do besides. -/
structure Licence where
  /-- Create limit orders. -/
  orders : Prop
  /-- Leave a supply above its maximum. -/
  excess : Prop
  /-- Redeem a settled asset. -/
  redemptions : ℕ → Prop

/-- A supply within the maximum of its asset. -/
def Books.WithinMax (s : Books) (assetId : ℕ) (supply : ℤ) : Prop :=
  ∀ a, s.assets.lookup assetId = some a → supply ≤ a.options.maxSupply

/-- Dynamic data with more supply. -/
def AssetDynamicData.supplied (d : AssetDynamicData) (x : ℤ) : AssetDynamicData :=
  { d with currentSupply := d.currentSupply + x }

/-- One change of the books, and by how much what is held beyond the supply grows with it. -/
inductive Posting (L : Licence) : Books → (ℕ → ℤ) → Books → Prop
  | paid {s s' : Books} {v : ℕ → ℤ} (h : Paid s v s') : Posting L s v s'
  | createLimit {s : Books} {o : LimitOrder} (hL : L.orders) (ho : o.Sound) :
      Posting L s o.holds { s with limitOrders := s.limitOrders.create o }
  | reduceLimit {s : Books} {id : ℕ} {o : LimitOrder} {x : ℤ}
      (h : s.limitOrders.lookup id = some o) (hx : 0 ≤ x) (hlt : x < o.forSale) :
      Posting L s (Asset.vec ⟨-x, o.sellPrice.base.assetId⟩ - Asset.vec ⟨o.deferredFee, core⟩)
        { s with
          limitOrders := s.limitOrders.modify id fun o =>
            { o with forSale := o.forSale - x, deferredFee := 0 } }
  | removeLimit {s : Books} {id : ℕ} {o : LimitOrder} (h : s.limitOrders.lookup id = some o) :
      Posting L s (-o.holds) { s with limitOrders := s.limitOrders.erase id }
  | openCall {s : Books} {o : CallOrder} {d : AssetDynamicData} (ho : o.Sound)
      (hb : s.Lends o.debtType o.callPrice.base.assetId)
      (hd : s.dynamicData.lookup o.debtType = some d)
      (hL : ¬ L.excess → s.WithinMax o.debtType (d.currentSupply + o.debt)) :
      Posting L s (o.getCollateral.vec - o.getDebt.vec)
        { s with
          callOrders := s.callOrders.create o
          dynamicData := s.dynamicData.insert o.debtType (d.supplied o.debt) }
  | changeCall {s : Books} {id : ℕ} {o o' : CallOrder} {d : AssetDynamicData}
      (h : s.callOrders.lookup id = some o) (ho : o'.Sound) (htype : o'.debtType = o.debtType)
      (hbacking : o'.callPrice.base.assetId = o.callPrice.base.assetId)
      (hd : s.dynamicData.lookup o.debtType = some d)
      (hL : ¬ L.excess → o'.debt ≤ o.debt ∨
        s.WithinMax o.debtType (d.currentSupply + (o'.debt - o.debt))) :
      Posting L s (Asset.vec ⟨o'.collateral - o.collateral, o.callPrice.base.assetId⟩ -
          Asset.vec ⟨o'.debt - o.debt, o.debtType⟩)
        { s with
          callOrders := s.callOrders.modify id fun _ => o'
          dynamicData := s.dynamicData.insert o.debtType (d.supplied (o'.debt - o.debt)) }
  | setCollateral {s : Books} {id : ℕ} {o o' : CallOrder}
      (h : s.callOrders.lookup id = some o) (ho : o'.Sound) (htype : o'.debtType = o.debtType)
      (hbacking : o'.callPrice.base.assetId = o.callPrice.base.assetId) (hdebt : o'.debt = o.debt) :
      Posting L s (Asset.vec ⟨o'.collateral - o.collateral, o.callPrice.base.assetId⟩)
        { s with callOrders := s.callOrders.modify id fun _ => o' }
  | closeCall {s : Books} {id : ℕ} {o : CallOrder} {d : AssetDynamicData}
      (h : s.callOrders.lookup id = some o) (hd : s.dynamicData.lookup o.debtType = some d) :
      Posting L s (o.getDebt.vec - o.getCollateral.vec)
        { s with
          callOrders := s.callOrders.erase id
          dynamicData := s.dynamicData.insert o.debtType (d.supplied (-o.debt)) }
  | createSettlement {s : Books} {o : ForceSettlement} (ho : 0 ≤ o.balance.amount) :
      Posting L s o.balance.vec { s with settlements := s.settlements.create o }
  | reduceSettlement {s : Books} {id : ℕ} {o : ForceSettlement} {x : ℤ}
      (h : s.settlements.lookup id = some o) (hx : 0 ≤ x) (hle : x ≤ o.balance.amount) :
      Posting L s (Asset.vec ⟨-x, o.balance.assetId⟩)
        { s with
          settlements := s.settlements.modify id fun o => { o with balance := o.balance.less x } }
  | removeSettlement {s : Books} {id : ℕ} {o : ForceSettlement}
      (h : s.settlements.lookup id = some o) :
      Posting L s (-o.balance.vec) { s with settlements := s.settlements.erase id }
  | settle {s : Books} {k : ℕ} {b : BitassetData} {d : AssetDynamicData} {supply fund : ℤ}
      (hb : s.bitassets.lookup k = some b) (hsettled : b.hasSettlement = false)
      (hcalls : ∀ id o, s.callOrders.lookup id = some o → o.debtType ≠ k)
      (hd : s.dynamicData.lookup k = some d) (hne : k ≠ b.shortBackingAsset) (hsupply : 0 < supply)
      (hfund : 0 ≤ fund) (hL : ¬ L.excess → s.WithinMax k supply) :
      Posting L s (Asset.vec ⟨fund, b.shortBackingAsset⟩ - Asset.vec ⟨supply - d.currentSupply, k⟩)
        { s with
          bitassets := s.bitassets.modify k fun b =>
            { b with
              settlementPrice := ⟨⟨supply, k⟩, ⟨fund, b.shortBackingAsset⟩⟩
              settlementFund := fund }
          dynamicData := s.dynamicData.insert k { d with currentSupply := supply } }
  | redeem {s : Books} {k : ℕ} {b : BitassetData} {d : AssetDynamicData} {amount paid : ℤ}
      (hL : L.redemptions k) (hb : s.bitassets.lookup k = some b) (hsettled : b.hasSettlement = true)
      (hd : s.dynamicData.lookup k = some d) (hamount : 0 ≤ amount) (hpaid : paid ≤ b.settlementFund)
      (hprice : paid * b.settlementPrice.base.amount ≤ amount * b.settlementPrice.quote.amount) :
      Posting L s (Asset.vec ⟨amount, k⟩ - Asset.vec ⟨paid, b.shortBackingAsset⟩)
        { s with
          bitassets := s.bitassets.modify k fun b =>
            { b with settlementFund := b.settlementFund - paid }
          dynamicData := s.dynamicData.insert k (d.supplied (-amount)) }
  | setBitasset {s : Books} {k : ℕ} {b : BitassetData} {g : BitassetData → BitassetData}
      (hb : s.bitassets.lookup k = some b) (hprice : (g b).settlementPrice = b.settlementPrice)
      (hfund : (g b).settlementFund = b.settlementFund) (hfeeds : b.FeedsSound → (g b).FeedsSound)
      (hbacking : (g b).shortBackingAsset = b.shortBackingAsset ∨
        b.hasSettlement = false ∧ supplyOf s.dynamicData k = some 0) :
      Posting L s 0 { s with bitassets := s.bitassets.modify k g }
  | setAsset {s : Books} {k : ℕ} {a : AssetObject} {g : AssetObject → AssetObject}
      (ha : s.assets.lookup k = some a)
      (hL : ¬ L.excess → a.options.maxSupply ≤ (g a).options.maxSupply ∨
        ∀ supply, supplyOf s.dynamicData k = some supply → supply ≤ (g a).options.maxSupply) :
      Posting L s 0 { s with assets := s.assets.modify k g }
  | createAsset {s : Books} {k : ℕ} {a : AssetObject} {pool : ℤ} {t : Table ℕ BitassetData}
      (hassets : s.assets.lookup k = none) (hdata : s.dynamicData.lookup k = none)
      (hbitassets : s.bitassets.lookup k = none)
      (ht : t = s.bitassets ∨ ∃ b : BitassetData, t = s.bitassets.insert k b ∧
        b.hasSettlement = false ∧ b.settlementFund = 0 ∧ b.FeedsSound)
      (hmax : 0 ≤ a.options.maxSupply) (hpool : 0 ≤ pool) :
      Posting L s (Asset.vec ⟨pool, core⟩)
        { s with
          assets := s.assets.insert k a
          bitassets := t
          dynamicData := s.dynamicData.insert k
            { currentSupply := 0, accumulatedFees := 0, feePool := pool, lockedBalance := 0 } }
  | issue {s : Books} {k : ℕ} {d : AssetDynamicData} {x : ℤ}
      (hd : s.dynamicData.lookup k = some d) (hb : s.bitassets.lookup k = none)
      (hmax : x ≤ 0 ∨ s.WithinMax k (d.currentSupply + x)) :
      Posting L s (-Asset.vec ⟨x, k⟩)
        { s with dynamicData := s.dynamicData.insert k (d.supplied x) }
  | tick {s : Books} (time : ℕ) : Posting L s 0 { s with headTime := time }

/-- Postings one after the other. -/
inductive Postings (L : Licence) : Books → (ℕ → ℤ) → Books → Prop
  | refl (s : Books) : Postings L s 0 s
  | step {s s₁ s' : Books} {v w : ℕ → ℤ} (h : Posting L s v s₁) (hs : Postings L s₁ w s') :
      Postings L s (v + w) s'

namespace Postings

variable {L : Licence} {s s₁ s' : Books} {v w : ℕ → ℤ}

theorem single (h : Posting L s v s') : Postings L s v s' := by
  have hs := step h (refl s')
  rwa [add_zero] at hs

theorem trans (h : Postings L s v s₁) (h' : Postings L s₁ w s') : Postings L s (v + w) s' := by
  induction h with
  | refl =>
    rw [zero_add]
    exact h'
  | step hfirst _ ih =>
    rw [add_assoc]
    exact step hfirst (ih h')

theorem cast (h : Postings L s v s') (hv : v = w) : Postings L s w s' := hv ▸ h

theorem paid (h : Paid s v s') : Postings L s v s' := single (.paid h)

/-- The rule for invariants. -/
theorem keep {I : Books → Prop} (hI : ∀ {s v s'}, Posting L s v s' → I s → I s')
    (h : Postings L s v s') (hs : I s) : I s' := by
  induction h with
  | refl => exact hs
  | step hfirst _ ih => exact ih (hI hfirst hs)

end Postings

end FinChain.Ledger
