import FinChain.Ledger.Postings
import Mathlib.Algebra.Order.Pi

/-!
# What postings keep

Every posting keeps the books sound, changes what is held beyond the supply by what it says, and
keeps a supply within its maximum unless the licence allows an excess.
-/

namespace FinChain.Ledger

open Exec

/-! ### What is held -/

theorem fundsLessSupply_supplied {t : Table ℕ AssetDynamicData} {k : ℕ} {d : AssetDynamicData}
    (hd : t.lookup k = some d) (x : ℤ) :
    fundsLessSupply (t.insert k (d.supplied x)) = fundsLessSupply t - Asset.vec ⟨x, k⟩ := by
  unfold fundsLessSupply AssetDynamicData.supplied
  rw [Table.total_insert_of_lookup _ _ hd, Asset.vec_add]
  abel

theorem supplied_eq (d : AssetDynamicData) (supply : ℤ) :
    { d with currentSupply := supply } = d.supplied (supply - d.currentSupply) := by
  unfold AssetDynamicData.supplied
  rw [add_sub_cancel]

theorem BitassetData.holds_of_fund {b : BitassetData} (h : b.settlementFund = 0) : b.holds = 0 :=
  Asset.vec_of_zero h

theorem vec_neg_amount (x : ℤ) (i : ℕ) : Asset.vec ⟨-x, i⟩ = -Asset.vec ⟨x, i⟩ :=
  Asset.vec_neg ⟨x, i⟩

/-- **What a posting is worth.** -/
theorem Posting.worth {L : Licence} {s s' : Books} {v : ℕ → ℤ} (h : Posting L s v s')
    (hs : Sound s) : s'.worth = s.worth + v := by
  unfold Books.worth
  cases h with
  | paid h =>
    rw [h.cash, h.rest]
    abel
  | createLimit hL ho =>
    rw [Index.total_create]
    abel
  | reduceLimit h hx hlt =>
    rw [Index.total_modify _ _ h]
    unfold LimitOrder.holds LimitOrder.amountForSale
    simp only [Nat.cast_zero, Asset.vec_sub, vec_neg_amount]
    rw [Asset.vec_of_zero (a := ⟨0, core⟩) rfl]
    abel
  | removeLimit h =>
    rw [Index.total_erase _ h]
    abel
  | openCall ho hb hd hL =>
    rw [Index.total_create, fundsLessSupply_supplied hd]
    unfold CallOrder.getDebt
    abel
  | @changeCall _ o o' d h ho htype hbacking hd hL =>
    rw [Index.total_modify _ _ h, fundsLessSupply_supplied hd]
    unfold CallOrder.getCollateral
    rw [hbacking, Asset.vec_sub o'.collateral]
    abel
  | @setCollateral _ o o' h ho htype hbacking hdebt =>
    rw [Index.total_modify _ _ h]
    unfold CallOrder.getCollateral
    rw [hbacking, Asset.vec_sub]
    abel
  | closeCall h hd =>
    rw [Index.total_erase _ h, fundsLessSupply_supplied hd, vec_neg_amount]
    unfold CallOrder.getDebt
    abel
  | createSettlement ho =>
    rw [Index.total_create]
    abel
  | reduceSettlement h hx hle =>
    rw [Index.total_modify _ _ h]
    unfold Asset.less
    rw [Asset.vec_sub, vec_neg_amount]
    change _ + _ + _ + _ + _ + (_ + (_ - _ - Asset.vec ⟨_, _⟩)) + _ = _
    abel
  | removeSettlement h =>
    rw [Index.total_erase _ h]
    abel
  | @settle k b d supply fund hb hsettled hcalls hd hne hsupply hfund hL =>
    rw [Table.total_modify _ _ hb, supplied_eq, fundsLessSupply_supplied hd,
      BitassetData.holds_of_fund (hs.unsettled _ _ hb hsettled).1]
    change _ + _ + _ + _ + _ + _ + (_ + (Asset.vec ⟨fund, b.shortBackingAsset⟩ - 0)) = _
    abel
  | @redeem k b d amount paid hL' hb hsettled hd hamount hpaid hprice =>
    rw [Table.total_modify _ _ hb, fundsLessSupply_supplied hd, vec_neg_amount]
    unfold BitassetData.holds
    simp only [Asset.vec_sub]
    change _ + _ + _ + _ + _ + _ + (_ + (Asset.vec ⟨b.settlementFund, b.shortBackingAsset⟩ -
      Asset.vec ⟨paid, b.shortBackingAsset⟩ - _)) = _
    abel
  | @setBitasset k b g hb hprice hfund hfeeds hbacking =>
    have hholds : (g b).holds = b.holds := by
      unfold BitassetData.holds
      rw [hfund]
      rcases hbacking with hbacking | ⟨hsettled, -⟩
      · rw [hbacking]
      · rw [(hs.unsettled _ _ hb hsettled).1, Asset.vec_of_zero rfl, Asset.vec_of_zero rfl]
    rw [Table.total_modify _ _ hb, hholds, sub_self]
    abel
  | setAsset ha hL => rw [add_zero]
  | @createAsset k a pool t hassets hdata hbitassets ht hmax hpool =>
    have hfunds : t.total (fun _ b => b.holds) = s.bitassets.total fun _ b => b.holds := by
      rcases ht with rfl | ⟨b, rfl, -, hfund, -⟩
      · rfl
      · rw [Table.total_insert_of_none _ _ hbitassets, BitassetData.holds_of_fund hfund, add_zero]
    rw [hfunds]
    unfold fundsLessSupply
    rw [Table.total_insert_of_none _ _ hdata, Asset.vec_of_zero (a := ⟨0, k⟩) rfl]
    abel
  | issue hd hb hmax =>
    rw [fundsLessSupply_supplied hd]
    abel
  | tick time => rw [add_zero]

/-! ### Soundness -/

theorem Asset.vec_apply (a : Asset) (k : ℕ) : a.vec k = if k = a.assetId then a.amount else 0 :=
  Pi.single_apply _ _ _

theorem Asset.vec_nonneg {a : Asset} (h : 0 ≤ a.amount) : 0 ≤ a.vec := by
  intro k
  rw [Asset.vec_apply]
  split
  · exact h
  · exact le_rfl

theorem supplyOf_supplied {t : Table ℕ AssetDynamicData} {i : ℕ} {d : AssetDynamicData}
    (hd : t.lookup i = some d) (x : ℤ) (k : ℕ) :
    supplyOf (t.insert i (d.supplied x)) k =
      (supplyOf t k).map (· + Asset.vec ⟨x, i⟩ k) := by
  rw [supplyOf_insert, Asset.vec_apply]
  split
  · next h => rw [h, supplyOf, hd, Option.map_some, Option.map_some, AssetDynamicData.supplied]
  · simp

theorem FundsNonneg.supplied {t : Table ℕ AssetDynamicData} (ht : FundsNonneg t) {i : ℕ}
    {d : AssetDynamicData} (hd : t.lookup i = some d) (x : ℤ) :
    FundsNonneg (t.insert i (d.supplied x)) := by
  have hold : 0 ≤ d.accumulatedFees ∧ 0 ≤ d.feePool := ht i d hd
  exact ht.insert i hold

/-- A price between two assets is not null. -/
theorem BitassetData.hasSettlement_of_ne {b : BitassetData}
    (h : b.settlementPrice.base.assetId ≠ b.settlementPrice.quote.assetId) :
    b.hasSettlement = true := by
  unfold hasSettlement Price.isNull Price.eq Price.null
  simp only [Bool.not_eq_true', decide_eq_false_iff_not]
  rintro ⟨hbase, hquote, -⟩
  exact h (hbase.trans hquote.symm)

namespace Sound

variable {s s' : Books} {v : ℕ → ℤ}

/-- An asset in which there is a call order has debt. -/
theorem debts_pos (hs : Sound s) {id k : ℕ} {o : CallOrder} (ho : s.callOrders.lookup id = some o)
    (hk : o.debtType = k) : 0 < s.debts k := by
  have herase := Index.total_erase (fun _ (o : CallOrder) => o.getDebt.vec) ho
  have hrest : 0 ≤ (s.callOrders.erase id).total fun _ o => o.getDebt.vec := by
    refine Index.total_nonneg ?_
    intro id' o' ho'
    rw [Index.lookup_erase] at ho'
    split at ho'
    · cases ho'
    · exact Asset.vec_nonneg (hs.calls id' o' ho').1.debt_pos.le
  have hpos := (hs.calls id o ho).1.debt_pos
  have hk' := hrest k
  rw [herase, Pi.zero_apply, Pi.sub_apply, Asset.vec_apply] at hk'
  rw [if_pos (show k = o.getDebt.assetId from hk.symm)] at hk'
  change 0 ≤ s.debts k - o.debt at hk'
  omega

theorem of_paid (hs : Sound s) (h : Paid s v s') : Sound s' := by
  rw [h.rest]
  exact
    { hs with
      balances := h.balances hs.balances
      funds := h.funds hs.funds
      pending := h.pending hs.pending
      unsettled := by
        rw [h.supply]
        exact hs.unsettled
      settled := by
        rw [h.supply]
        exact hs.settled }

/-- The limit orders are changed, and are sound. -/
theorem of_limits (hs : Sound s) {x : Index LimitOrder}
    (h : ∀ id o, x.lookup id = some o → o.Sound) : Sound { s with limitOrders := x } :=
  { hs with limits := h }

/-- The settlements are changed, and are sound. -/
theorem of_settlements (hs : Sound s) {x : Index ForceSettlement}
    (h : ∀ id o, x.lookup id = some o → 0 ≤ o.balance.amount) : Sound { s with settlements := x } :=
  { hs with settlements := h }

/-- A call order is changed together with the supply. -/
theorem of_calls (hs : Sound s) {c : Index CallOrder} {i backing : ℕ} {d : AssetDynamicData} {x : ℤ}
    (hlends : s.Lends i backing) (hd : s.dynamicData.lookup i = some d)
    (hcalls : ∀ id o, c.lookup id = some o → o.Sound ∧ s.Lends o.debtType o.callPrice.base.assetId)
    (hdebts : c.total (fun _ o => o.getDebt.vec) = s.debts + Asset.vec ⟨x, i⟩) :
    Sound { s with callOrders := c, dynamicData := s.dynamicData.insert i (d.supplied x) } := by
  obtain ⟨b, hb, hunsettled, -⟩ := hlends
  refine
    { hs with
      funds := hs.funds.supplied hd x
      calls := hcalls
      unsettled := ?_
      settled := ?_ }
  · intro k b' hb' hsettled
    obtain ⟨hfund, hsupply⟩ := hs.unsettled k b' hb' hsettled
    refine ⟨hfund, ?_⟩
    change supplyOf (s.dynamicData.insert i (d.supplied x)) k =
      some ((c.total fun _ (o : CallOrder) => o.getDebt.vec) k)
    rw [supplyOf_supplied hd, hsupply, hdebts, Option.map_some, Pi.add_apply]
  · intro k b' hb' hsettled
    have hne : k ≠ i := by
      rintro rfl
      rw [hb] at hb'
      cases hb'
      rw [hunsettled] at hsettled
      cases hsettled
    change ∃ supply, supplyOf (s.dynamicData.insert i (d.supplied x)) k = some supply ∧ _
    rw [supplyOf_insert, if_neg hne]
    exact hs.settled k b' hb' hsettled

/-- Call orders are changed, but not their debts. -/
theorem of_collateral (hs : Sound s) {c : Index CallOrder}
    (hcalls : ∀ id o, c.lookup id = some o → o.Sound ∧ s.Lends o.debtType o.callPrice.base.assetId)
    (hdebts : c.total (fun _ o => o.getDebt.vec) = s.debts) :
    Sound { s with callOrders := c } := by
  refine { hs with calls := hcalls, unsettled := ?_ }
  intro k b hb hunsettled
  obtain ⟨hfund, hsupply⟩ := hs.unsettled k b hb hunsettled
  refine ⟨hfund, ?_⟩
  change supplyOf s.dynamicData k = some ((c.total fun _ (o : CallOrder) => o.getDebt.vec) k)
  rw [hdebts]
  exact hsupply

/-- The data of one bitasset are changed, but not whether it is settled nor what it holds. -/
theorem of_bitasset (hs : Sound s) {k : ℕ} {b : BitassetData} {g : BitassetData → BitassetData}
    (hb : s.bitassets.lookup k = some b) (hprice : (g b).settlementPrice = b.settlementPrice)
    (hfund : (g b).settlementFund = b.settlementFund) (hfeeds : b.FeedsSound → (g b).FeedsSound)
    (hbacking : (g b).shortBackingAsset = b.shortBackingAsset ∨
      b.hasSettlement = false ∧ supplyOf s.dynamicData k = some 0) :
    Sound { s with bitassets := s.bitassets.modify k g } := by
  have hlookup : ∀ k', (s.bitassets.modify k g).lookup k' =
      if k' = k then some (g b) else s.bitassets.lookup k' := by
    intro k'
    rw [Table.lookup_modify, hb, Option.map_some]
  have hsettlement : (g b).hasSettlement = b.hasSettlement := by
    rw [BitassetData.hasSettlement, hprice, BitassetData.hasSettlement]
  refine { hs with calls := ?_, feeds := ?_, unsettled := ?_, settled := ?_ }
  · intro id o ho
    obtain ⟨hsound, b', hb', hunsettled, hbase⟩ := hs.calls id o ho
    refine ⟨hsound, ?_⟩
    unfold Books.Lends
    simp only [hlookup]
    split
    · next htype =>
      rw [htype, hb] at hb'
      cases hb'
      refine ⟨g b, rfl, by rw [hsettlement, hunsettled], ?_⟩
      rcases hbacking with hbacking | ⟨-, hzero⟩
      · rw [hbacking, hbase]
      · -- an asset without supply has no call orders
        have hsupply := (hs.unsettled k b hb hunsettled).2
        rw [hzero] at hsupply
        exact absurd (Option.some.inj hsupply) (hs.debts_pos ho htype).ne
    · exact ⟨b', hb', hunsettled, hbase⟩
  · intro k' b' hb'
    simp only [hlookup] at hb'
    split at hb'
    · cases hb'
      exact hfeeds (hs.feeds k b hb)
    · exact hs.feeds k' b' hb'
  · intro k' b' hb' hunsettled
    simp only [hlookup] at hb'
    split at hb'
    · next hk =>
      cases hb'
      rw [hsettlement] at hunsettled
      rw [hk, hfund]
      exact hs.unsettled k b hb hunsettled
    · exact hs.unsettled k' b' hb' hunsettled
  · intro k' b' hb' hsettled
    simp only [hlookup] at hb'
    split at hb'
    · next hk =>
      cases hb'
      rw [hsettlement] at hsettled
      obtain ⟨supply, hsupply, hcovers⟩ := hs.settled k b hb hsettled
      have hsame : (g b).shortBackingAsset = b.shortBackingAsset := by
        rcases hbacking with hbacking | ⟨hunsettled, -⟩
        · exact hbacking
        · rw [hunsettled] at hsettled
          cases hsettled
      refine ⟨supply, by rw [hk]; exact hsupply, ?_⟩
      rw [hk]
      exact ⟨by rw [hprice]; exact hcovers.base_id, by rw [hprice, hsame]; exact hcovers.quote_id,
        by rw [hprice]; exact hcovers.base_pos, by rw [hprice]; exact hcovers.quote_nonneg,
        by rw [hfund]; exact hcovers.fund_nonneg, by rw [hprice, hfund]; exact hcovers.covered⟩
    · exact hs.settled k' b' hb' hsettled

/-- An asset without call orders is settled. -/
theorem of_settle (hs : Sound s) {k : ℕ} {b : BitassetData} {d : AssetDynamicData} {supply fund : ℤ}
    (hb : s.bitassets.lookup k = some b)
    (hcalls : ∀ id o, s.callOrders.lookup id = some o → o.debtType ≠ k)
    (hd : s.dynamicData.lookup k = some d) (hne : k ≠ b.shortBackingAsset) (hsupply : 0 < supply)
    (hfund : 0 ≤ fund) :
    Sound { s with
      bitassets := s.bitassets.modify k fun b =>
        { b with
          settlementPrice := ⟨⟨supply, k⟩, ⟨fund, b.shortBackingAsset⟩⟩
          settlementFund := fund }
      dynamicData := s.dynamicData.insert k { d with currentSupply := supply } } := by
  have hfunds : 0 ≤ d.accumulatedFees ∧ 0 ≤ d.feePool := hs.funds k d hd
  refine
    { hs with
      funds := hs.funds.insert k hfunds
      calls := ?_
      feeds := ?_
      unsettled := ?_
      settled := ?_ }
  · intro id o ho
    obtain ⟨hsound, b', hb', hunsettled, hbase⟩ := hs.calls id o ho
    refine ⟨hsound, b', ?_, hunsettled, hbase⟩
    rw [Table.lookup_modify, if_neg (hcalls id o ho)]
    exact hb'
  · intro k' b' hb'
    rw [Table.lookup_modify] at hb'
    split at hb'
    · rw [hb] at hb'
      cases hb'
      exact ⟨(hs.feeds k b hb).feeds, (hs.feeds k b hb).current⟩
    · exact hs.feeds k' b' hb'
  · intro k' b' hb' hunsettled
    rw [Table.lookup_modify] at hb'
    split at hb'
    · rw [hb] at hb'
      cases hb'
      rw [BitassetData.hasSettlement_of_ne hne] at hunsettled
      cases hunsettled
    · next hk =>
      obtain ⟨hzero, hsupply'⟩ := hs.unsettled k' b' hb' hunsettled
      refine ⟨hzero, ?_⟩
      rw [supplyOf_insert, if_neg hk]
      exact hsupply'
  · intro k' b' hb' hsettled
    rw [Table.lookup_modify] at hb'
    split at hb'
    · next hk =>
      rw [hb] at hb'
      cases hb'
      refine ⟨supply, by rw [supplyOf_insert, if_pos hk], ?_⟩
      exact ⟨hk.symm, rfl, hsupply, hfund, hfund, (mul_comm _ _).le⟩
    · next hk =>
      rw [supplyOf_insert, if_neg hk]
      exact hs.settled k' b' hb' hsettled

/-- A part of a settled asset is redeemed at its price or less. -/
theorem of_redeem (hs : Sound s) {k : ℕ} {b : BitassetData} {d : AssetDynamicData} {amount paid : ℤ}
    (hb : s.bitassets.lookup k = some b) (hsettled : b.hasSettlement = true)
    (hd : s.dynamicData.lookup k = some d) (hpaid : paid ≤ b.settlementFund)
    (hprice : paid * b.settlementPrice.base.amount ≤ amount * b.settlementPrice.quote.amount) :
    Sound { s with
      bitassets := s.bitassets.modify k fun b => { b with settlementFund := b.settlementFund - paid }
      dynamicData := s.dynamicData.insert k (d.supplied (-amount)) } := by
  refine
    { hs with
      funds := hs.funds.supplied hd _
      calls := ?_
      feeds := ?_
      unsettled := ?_
      settled := ?_ }
  · intro id o ho
    obtain ⟨hsound, b', hb', hunsettled, hbase⟩ := hs.calls id o ho
    have hne : o.debtType ≠ k := by
      intro hk
      rw [hk, hb] at hb'
      cases hb'
      rw [hunsettled] at hsettled
      cases hsettled
    refine ⟨hsound, b', ?_, hunsettled, hbase⟩
    rw [Table.lookup_modify, if_neg hne]
    exact hb'
  · intro k' b' hb'
    rw [Table.lookup_modify] at hb'
    split at hb'
    · rw [hb] at hb'
      cases hb'
      exact ⟨(hs.feeds k b hb).feeds, (hs.feeds k b hb).current⟩
    · exact hs.feeds k' b' hb'
  · intro k' b' hb' hunsettled
    rw [Table.lookup_modify] at hb'
    split at hb'
    · rw [hb] at hb'
      cases hb'
      exact absurd (hsettled.symm.trans hunsettled) (by decide)
    · next hk =>
      obtain ⟨hzero, hsupply⟩ := hs.unsettled k' b' hb' hunsettled
      refine ⟨hzero, ?_⟩
      rw [supplyOf_insert, if_neg hk]
      exact hsupply
  · intro k' b' hb' hsettled'
    rw [Table.lookup_modify] at hb'
    split at hb'
    · next hk =>
      rw [hb] at hb'
      cases hb'
      obtain ⟨supply, hsupply, hcovers⟩ := hs.settled k b hb hsettled
      refine ⟨supply - amount, ?_, ?_⟩
      · rw [hk, supplyOf_supplied hd, hsupply, Option.map_some, Asset.vec_apply, if_pos rfl]
        rfl
      · refine ⟨hk ▸ hcovers.base_id, hcovers.quote_id, hcovers.base_pos, hcovers.quote_nonneg,
          sub_nonneg.mpr hpaid, ?_⟩
        change (supply - amount) * b.settlementPrice.quote.amount ≤
          (b.settlementFund - paid) * b.settlementPrice.base.amount
        rw [sub_mul, sub_mul]
        exact sub_le_sub hcovers.covered hprice
    · next hk =>
      rw [supplyOf_insert, if_neg hk]
      exact hs.settled k' b' hb' hsettled'

/-- No call order borrows an asset that does not exist. -/
theorem debts_eq_zero (hs : Sound s) {k : ℕ} (h : s.bitassets.lookup k = none) : s.debts k = 0 := by
  refine Index.total_apply_eq_zero ?_
  intro id o ho
  obtain ⟨-, b, hb, -⟩ := hs.calls id o ho
  rw [Asset.vec_apply, if_neg]
  intro hk
  rw [← show k = o.debtType from hk, h] at hb
  cases hb

theorem of_createAsset (hs : Sound s) {k : ℕ} {a : AssetObject} {pool : ℤ} {t : Table ℕ BitassetData}
    (hbitassets : s.bitassets.lookup k = none)
    (ht : t = s.bitassets ∨ ∃ b : BitassetData, t = s.bitassets.insert k b ∧
      b.hasSettlement = false ∧ b.settlementFund = 0 ∧ b.FeedsSound) (hpool : 0 ≤ pool) :
    Sound { s with
      assets := s.assets.insert k a
      bitassets := t
      dynamicData := s.dynamicData.insert k
        { currentSupply := 0, accumulatedFees := 0, feePool := pool, lockedBalance := 0 } } := by
  have hother : ∀ k', k' ≠ k → t.lookup k' = s.bitassets.lookup k' := by
    intro k' hk
    rcases ht with rfl | ⟨b, rfl, -⟩
    · rfl
    · exact AList.lookup_insert_ne hk
  have hnew : ∀ b, t.lookup k = some b →
      b.hasSettlement = false ∧ b.settlementFund = 0 ∧ b.FeedsSound := by
    intro b hb
    rcases ht with rfl | ⟨b', rfl, hb'⟩
    · rw [hbitassets] at hb
      cases hb
    · rw [AList.lookup_insert] at hb
      cases hb
      exact hb'
  refine
    { hs with
      funds := hs.funds.insert k ⟨le_rfl, hpool⟩
      calls := ?_
      feeds := ?_
      unsettled := ?_
      settled := ?_ }
  · intro id o ho
    obtain ⟨hsound, b, hb, hrest⟩ := hs.calls id o ho
    have hne : o.debtType ≠ k := by
      intro hk
      rw [hk, hbitassets] at hb
      cases hb
    refine ⟨hsound, b, ?_, hrest⟩
    rw [← hb]
    exact hother _ hne
  · intro k' b hb
    by_cases hk : k' = k
    · rw [hk] at hb
      exact (hnew b hb).2.2
    · exact hs.feeds k' b ((hother k' hk).symm.trans hb)
  · intro k' b hb hunsettled
    by_cases hk : k' = k
    · rw [hk] at hb ⊢
      refine ⟨(hnew b hb).2.1, ?_⟩
      rw [supplyOf_insert, if_pos rfl]
      exact congrArg some (hs.debts_eq_zero hbitassets).symm
    · rw [supplyOf_insert, if_neg hk]
      exact hs.unsettled k' b ((hother k' hk).symm.trans hb) hunsettled
  · intro k' b hb hsettled
    by_cases hk : k' = k
    · rw [hk] at hb
      rw [(hnew b hb).1] at hsettled
      cases hsettled
    · rw [supplyOf_insert, if_neg hk]
      exact hs.settled k' b ((hother k' hk).symm.trans hb) hsettled

/-- The supply of an asset that is not market-issued is changed. -/
theorem of_issue (hs : Sound s) {k : ℕ} {d : AssetDynamicData} {x : ℤ}
    (hd : s.dynamicData.lookup k = some d) (hb : s.bitassets.lookup k = none) :
    Sound { s with dynamicData := s.dynamicData.insert k (d.supplied x) } := by
  have hother : ∀ k' b, s.bitassets.lookup k' = some b →
      supplyOf (s.dynamicData.insert k (d.supplied x)) k' = supplyOf s.dynamicData k' := by
    intro k' b hb'
    rw [supplyOf_insert, if_neg]
    rintro rfl
    rw [hb] at hb'
    cases hb'
  refine
    { hs with
      funds := hs.funds.supplied hd x
      unsettled := ?_
      settled := ?_ }
  · intro k' b hb' hunsettled
    rw [hother k' b hb']
    exact hs.unsettled k' b hb' hunsettled
  · intro k' b hb' hsettled
    rw [hother k' b hb']
    exact hs.settled k' b hb' hsettled

end Sound

/-- **A posting keeps the books sound.** -/
theorem Posting.sound {L : Licence} {s s' : Books} {v : ℕ → ℤ} (h : Posting L s v s')
    (hs : Sound s) : Sound s' := by
  cases h with
  | paid h => exact hs.of_paid h
  | createLimit hL ho =>
    refine hs.of_limits ?_
    intro id o' ho'
    rw [Index.lookup_create] at ho'
    split at ho'
    · cases ho'
      exact ho
    · exact hs.limits id o' ho'
  | @reduceLimit id o x h hx hlt =>
    refine hs.of_limits ?_
    intro id' o' ho'
    rw [Index.lookup_modify] at ho'
    split at ho'
    · rw [h] at ho'
      cases ho'
      have ho := hs.limits id o h
      exact
        { ho with
          forSale_pos := sub_pos.mpr hlt
          forSale_le := (sub_le_self _ hx).trans ho.forSale_le }
    · exact hs.limits id' o' ho'
  | removeLimit h =>
    refine hs.of_limits ?_
    intro id' o' ho'
    rw [Index.lookup_erase] at ho'
    split at ho'
    · cases ho'
    · exact hs.limits id' o' ho'
  | openCall ho hb hd hL =>
    refine hs.of_calls hb hd ?_ ?_
    · intro id' o' ho'
      rw [Index.lookup_create] at ho'
      split at ho'
      · cases ho'
        exact ⟨ho, hb⟩
      · exact hs.calls id' o' ho'
    · exact Index.total_create _ _ _
  | @changeCall id o o' d h ho htype hbacking hd hL =>
    have hlends := (hs.calls id o h).2
    refine hs.of_calls hlends hd ?_ ?_
    · intro id' o'' ho''
      rw [Index.lookup_modify] at ho''
      split at ho''
      · rw [h] at ho''
        cases ho''
        rw [htype, hbacking]
        exact ⟨ho, hlends⟩
      · exact hs.calls id' o'' ho''
    · rw [Index.total_modify _ _ h, Asset.vec_sub]
      unfold CallOrder.getDebt
      rw [htype]
      rfl
  | @setCollateral id o o' h ho htype hbacking hdebt =>
    refine hs.of_collateral ?_ ?_
    · intro id' o'' ho''
      rw [Index.lookup_modify] at ho''
      split at ho''
      · rw [h] at ho''
        cases ho''
        rw [htype, hbacking]
        exact ⟨ho, (hs.calls id o h).2⟩
      · exact hs.calls id' o'' ho''
    · rw [Index.total_modify _ _ h]
      unfold CallOrder.getDebt
      rw [htype, hdebt, sub_self, add_zero]
      rfl
  | @closeCall id o d h hd =>
    refine hs.of_calls (hs.calls id o h).2 hd ?_ ?_
    · intro id' o' ho'
      rw [Index.lookup_erase] at ho'
      split at ho'
      · cases ho'
      · exact hs.calls id' o' ho'
    · rw [Index.total_erase _ h, vec_neg_amount]
      exact sub_eq_add_neg _ _
  | createSettlement ho =>
    refine hs.of_settlements ?_
    intro id' o' ho'
    rw [Index.lookup_create] at ho'
    split at ho'
    · cases ho'
      exact ho
    · exact hs.settlements id' o' ho'
  | reduceSettlement h hx hle =>
    refine hs.of_settlements ?_
    intro id' o' ho'
    rw [Index.lookup_modify] at ho'
    split at ho'
    · rw [h] at ho'
      cases ho'
      exact sub_nonneg.mpr hle
    · exact hs.settlements id' o' ho'
  | removeSettlement h =>
    refine hs.of_settlements ?_
    intro id' o' ho'
    rw [Index.lookup_erase] at ho'
    split at ho'
    · cases ho'
    · exact hs.settlements id' o' ho'
  | settle hb hsettled hcalls hd hne hsupply hfund hL =>
    exact hs.of_settle hb hcalls hd hne hsupply hfund
  | redeem hL' hb hsettled hd hamount hpaid hprice => exact hs.of_redeem hb hsettled hd hpaid hprice
  | setBitasset hb hprice hfund hfeeds hbacking =>
    exact hs.of_bitasset hb hprice hfund hfeeds hbacking
  | setAsset ha hL => exact { hs with }
  | createAsset hassets hdata hbitassets ht hmax hpool => exact hs.of_createAsset hbitassets ht hpool
  | issue hd hb hmax => exact hs.of_issue hd hb
  | tick time => exact { hs with }

theorem Postings.sound {L : Licence} {s s' : Books} {v : ℕ → ℤ} (h : Postings L s v s')
    (hs : Sound s) : Sound s' :=
  h.keep Posting.sound hs

theorem Postings.worth {L : Licence} {s s' : Books} {v : ℕ → ℤ} (h : Postings L s v s')
    (hs : Sound s) : s'.worth = s.worth + v := by
  induction h with
  | refl => rw [add_zero]
  | step hfirst _ ih => rw [ih (hfirst.sound hs), hfirst.worth hs, add_assoc]

/-! ### The maximum of a supply -/

/-- Every supply is within the maximum of its asset. -/
def Capped (s : Books) : Prop :=
  ∀ k supply, supplyOf s.dynamicData k = some supply → s.WithinMax k supply

theorem Books.withinMax_of_all {s : Books} {k : ℕ} {x : ℤ}
    (h : ((s.assets.lookup k).all fun a => decide (x ≤ a.options.maxSupply)) = true) :
    s.WithinMax k x := by
  intro a ha
  rw [ha] at h
  exact of_decide_eq_true h

/-- A supply is changed to one within the maximum. -/
theorem Capped.insert {s : Books} (hs : Capped s) {k : ℕ} {d : AssetDynamicData}
    (h : s.WithinMax k d.currentSupply) {s' : Books} (hassets : s'.assets = s.assets)
    (hdata : s'.dynamicData = s.dynamicData.insert k d) : Capped s' := by
  intro k' supply hsupply a ha
  rw [hassets] at ha
  rw [hdata, supplyOf_insert] at hsupply
  split at hsupply
  · next hk =>
    cases hsupply
    rw [hk] at ha
    exact h a ha
  · exact hs k' supply hsupply a ha

theorem Capped.shrink {s : Books} (hs : Capped s) {k : ℕ} {d : AssetDynamicData}
    (hd : s.dynamicData.lookup k = some d) {x : ℤ} (hx : x ≤ 0) :
    s.WithinMax k (d.supplied x).currentSupply := by
  intro a ha
  have hold := hs k d.currentSupply (by rw [supplyOf, hd, Option.map_some]) a ha
  exact (add_le_of_nonpos_right hx).trans hold

/-- **A posting without an excess keeps supplies within their maximum.** -/
theorem Posting.capped {L : Licence} {s s' : Books} {v : ℕ → ℤ} (h : Posting L s v s')
    (hL : ¬ L.excess) (hs : Sound s) (hc : Capped s) : Capped s' := by
  cases h with
  | paid h =>
    intro k supply hsupply
    rw [h.supply] at hsupply
    rw [h.rest]
    exact hc k supply hsupply
  | createLimit | reduceLimit | removeLimit | setCollateral | createSettlement | reduceSettlement | removeSettlement
  | setBitasset | tick => exact hc
  | openCall ho hb hd hmax => exact hc.insert (hmax hL) rfl rfl
  | changeCall h ho htype hbacking hd hmax =>
    refine hc.insert ?_ rfl rfl
    rcases hmax hL with hle | hmax
    · exact hc.shrink hd (sub_nonpos.mpr hle)
    · exact hmax
  | closeCall h hd =>
    have hpos := (hs.calls _ _ h).1.debt_pos
    exact hc.insert (hc.shrink hd (neg_nonpos.mpr hpos.le)) rfl rfl
  | settle hb hsettled hcalls hd hne hsupply hfund hmax => exact hc.insert (hmax hL) rfl rfl
  | redeem hL' hb hsettled hd hamount hpaid hprice =>
    exact hc.insert (hc.shrink hd (neg_nonpos.mpr hamount)) rfl rfl
  | @setAsset k a g ha hmax =>
    intro k' supply hsupply a' ha'
    rw [Table.lookup_modify] at ha'
    split at ha'
    · next hk =>
      rw [ha] at ha'
      cases ha'
      rw [hk] at hsupply
      rcases hmax hL with hle | hmax
      · exact (hc k supply hsupply a ha).trans hle
      · exact hmax supply hsupply
    · exact hc k' supply hsupply a' ha'
  | @createAsset k a pool t hassets hdata hbitassets ht hmax hpool =>
    intro k' supply hsupply a' ha'
    rw [supplyOf_insert] at hsupply
    by_cases hk : k' = k
    · rw [if_pos hk] at hsupply
      rw [hk, AList.lookup_insert] at ha'
      cases hsupply
      cases ha'
      exact hmax
    · rw [if_neg hk] at hsupply
      rw [AList.lookup_insert_ne hk] at ha'
      exact hc k' supply hsupply a' ha'
  | issue hd hb hmax =>
    refine hc.insert ?_ rfl rfl
    rcases hmax with hx | hmax
    · exact hc.shrink hd hx
    · exact hmax

/-- What holds before postings under a licence, and after them. -/
structure Licence.Keeps (L : Licence) (s : Books) : Prop where
  sound : Sound s
  capped : ¬ L.excess → Capped s

theorem Posting.keeps {L : Licence} {s s' : Books} {v : ℕ → ℤ} (h : Posting L s v s')
    (hs : L.Keeps s) : L.Keeps s' where
  sound := h.sound hs.sound
  capped hL := h.capped hL hs.sound (hs.capped hL)

theorem Postings.keeps {L : Licence} {s s' : Books} {v : ℕ → ℤ} (h : Postings L s v s')
    (hs : L.Keeps s) : L.Keeps s' :=
  h.keep Posting.keeps hs

end FinChain.Ledger
