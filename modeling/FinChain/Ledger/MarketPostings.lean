import FinChain.Ledger.Soundness
import Mathlib.Algebra.Order.Ring.Int

/-!
# Market functions as postings

A function that fills one side of a trade posts what the order receives and takes what it pays; the
two sides of a match come to nothing. Filling a call order pays debt back, which leaves the supply,
so it counts as received. The loops go on from state to state, so nothing has to be known about them
but that each round is made of postings.

The amounts that are exchanged are never more than what the orders have. For two limit orders this
rests on rounding: at one price, what is received for what the other side would give at most is no
more than the other side has.
-/

namespace FinChain.Ledger

open Exec

variable {L : Licence}

/-! ### Filling limit orders -/

theorem outOfOrders_pending (a : Asset) (x : AccountStatistics) :
    (x.outOfOrders a).pendingFees = x.pendingFees ∧
      (x.outOfOrders a).pendingVestedFees = x.pendingVestedFees := by
  unfold AccountStatistics.outOfOrders
  split
  · exact ⟨rfl, rfl⟩
  · exact ⟨rfl, rfl⟩

theorem release_pending (freed : Option Asset) (pays : Asset) (x : AccountStatistics) :
    (x.release freed pays).pendingFees = x.pendingFees ∧
      (x.release freed pays).pendingVestedFees = x.pendingVestedFees :=
  outOfOrders_pending _ _

theorem paid_payOrder {receiver : ℕ} {receives pays : Asset} {s s' : Books} {u : Unit}
    (h : payOrder receiver receives pays s = .ok u s') : Paid s receives.vec s' := by
  unfold payOrder at h
  obtain ⟨_, s₁, hstatistics, h⟩ := bind_eq_ok.mp h
  have hzero := paid_modifyStatistics (outOfOrders_pending pays) hstatistics
  exact (hzero.trans (paid_adjustBalance h)).cast (zero_add _)

theorem paid_payDeferredFee {order : LimitOrder} {s s' : Books} {u : Unit}
    (h : payDeferredFee order s = .ok u s') : Paid s (Asset.vec ⟨order.deferredFee, core⟩) s' := by
  unfold payDeferredFee at h
  split at h
  · exact paid_payFee (Int.natCast_nonneg _) h
  · next hpos =>
    obtain ⟨-, rfl⟩ := pure_eq_ok.mp h
    have hzero : (order.deferredFee : ℤ) = 0 := by omega
    exact (Paid.refl s).cast (Asset.vec_of_zero hzero).symm

/-- The market fee and what is left of the amount are the amount. -/
theorem Asset.vec_less (a : Asset) (x : ℤ) : Asset.vec ⟨x, a.assetId⟩ + (a.less x).vec = a.vec := by
  unfold Asset.less
  rw [Asset.vec_sub]
  exact add_sub_cancel _ _

/-- **`cancel_order`** of a limit order returns what the order holds. -/
theorem cancelLimitOrder_ok {id : ℕ} {s s' : Books} {u : Unit}
    (h : cancelLimitOrder id s = .ok u s') :
    ∃ o s₁, s.limitOrders.lookup id = some o ∧ Paid s o.holds s₁ ∧
      s' = { s₁ with limitOrders := s.limitOrders.erase id } := by
  unfold cancelLimitOrder at h
  rw [get_bind] at h
  obtain ⟨o, ho, h⟩ := require_bind_eq_ok.mp h
  obtain ⟨_, s₁, hstatistics, h⟩ := bind_eq_ok.mp h
  obtain ⟨_, s₂, hrefund, h⟩ := bind_eq_ok.mp h
  obtain ⟨_, s₃, hdeferred, h⟩ := bind_eq_ok.mp h
  obtain rfl := update_eq_ok.mp h
  have hpaid := ((paid_modifyStatistics (outOfOrders_pending _) hstatistics).trans
    (paid_adjustBalance hrefund)).trans (paid_adjustBalance hdeferred)
  rw [zero_add] at hpaid
  have hsame : s₃.limitOrders = s.limitOrders := by
    rw [hpaid.rest]
  exact ⟨o, s₃, ho, hpaid, by rw [hsame]⟩

theorem postings_cancelLimitOrder {id : ℕ} {s s' : Books} {u : Unit}
    (h : cancelLimitOrder id s = .ok u s') : Postings L s 0 s' := by
  obtain ⟨o, s₁, ho, hpaid, rfl⟩ := cancelLimitOrder_ok h
  have hsame : s₁.limitOrders = s.limitOrders := by
    rw [hpaid.rest]
  rw [← hsame] at ho ⊢
  exact ((Postings.paid hpaid).trans (.single (.removeLimit ho))).cast (add_neg_cancel _)

theorem maybeCullSmallOrder_ok {id : ℕ} {s s' : Books} {culled : Bool}
    (h : maybeCullSmallOrder id s = .ok culled s') :
    culled = false ∧ s' = s ∨ culled = true ∧ cancelLimitOrder id s = .ok () s' := by
  unfold maybeCullSmallOrder at h
  rw [get_bind] at h
  obtain ⟨o, -, h⟩ := require_bind_eq_ok.mp h
  obtain ⟨receives, -, h⟩ := lift_bind_eq_ok.mp h
  split at h
  · obtain ⟨_, s₁, hcancel, h⟩ := bind_eq_ok.mp h
    obtain ⟨rfl, rfl⟩ := pure_eq_ok.mp h
    exact .inr ⟨rfl, hcancel⟩
  · obtain ⟨rfl, rfl⟩ := pure_eq_ok.mp h
    exact .inl ⟨rfl, rfl⟩

/-- What is left of a limit order. -/
def LimitOrder.reduced (o : LimitOrder) (x : ℤ) : LimitOrder :=
  { o with forSale := o.forSale - x, deferredFee := 0 }

/-- How `fill_order` of a limit order ends, after the payments: all of it is sold, a part of it is
sold, or what is left of it is so little that it is returned. -/
inductive LimitFill (id : ℕ) (o : LimitOrder) (pays : Asset) (s : Books) : Bool → Books → Prop
  | all (h : pays = o.amountForSale) :
      LimitFill id o pays s true { s with limitOrders := s.limitOrders.erase id }
  | part (h : pays ≠ o.amountForSale) :
      LimitFill id o pays s false
        { s with limitOrders := s.limitOrders.modify id (·.reduced pays.amount) }
  | culled (h : pays ≠ o.amountForSale) {s₁ : Books}
      (hpaid : Paid { s with limitOrders := s.limitOrders.modify id (·.reduced pays.amount) }
        (o.reduced pays.amount).holds s₁) :
      LimitFill id o pays s true { s₁ with limitOrders := s.limitOrders.erase id }

theorem reduceLimitOrder_ok {id : ℕ} {o : LimitOrder} {pays : Asset} {cull filled : Bool}
    {s s' : Books} (ho : s.limitOrders.lookup id = some o)
    (h : reduceLimitOrder id o pays cull s = .ok filled s') : LimitFill id o pays s filled s' := by
  unfold reduceLimitOrder at h
  split at h
  · next hall =>
    obtain ⟨_, s₁, hremove, h⟩ := bind_eq_ok.mp h
    obtain rfl := update_eq_ok.mp hremove
    obtain ⟨rfl, rfl⟩ := pure_eq_ok.mp h
    exact .all hall
  · next hpart =>
    obtain ⟨_, s₁, hreduce, h⟩ := bind_eq_ok.mp h
    obtain rfl := update_eq_ok.mp hreduce
    split at h
    · rcases maybeCullSmallOrder_ok h with ⟨rfl, rfl⟩ | ⟨rfl, hcancel⟩
      · exact .part hpart
      · obtain ⟨o', s₂, ho', hpaid, rfl⟩ := cancelLimitOrder_ok hcancel
        rw [Index.lookup_modify, if_pos rfl, ho] at ho'
        cases ho'
        rw [Index.erase_modify]
        exact .culled hpart hpaid
    · obtain ⟨rfl, rfl⟩ := pure_eq_ok.mp h
      exact .part hpart

/-- **`fill_order`** of a limit order: the payments, and what becomes of the order. -/
theorem fillLimitOrder_ok {id : ℕ} {pays receives : Asset} {cull filled : Bool} {s s' : Books}
    (h : fillLimitOrder id pays receives cull s = .ok filled s') :
    ∃ o s₁, s.limitOrders.lookup id = some o ∧ o.sellPrice.base.assetId = pays.assetId ∧
      pays.assetId ≠ receives.assetId ∧
      Paid s (receives.vec + Asset.vec ⟨o.deferredFee, core⟩) s₁ ∧
      LimitFill id o pays s₁ filled s' := by
  unfold fillLimitOrder at h
  rw [get_bind] at h
  obtain ⟨o, ho, h⟩ := require_bind_eq_ok.mp h
  obtain ⟨hid, h⟩ := assert_bind_eq_ok.mp h
  obtain ⟨hne, h⟩ := assert_bind_eq_ok.mp h
  obtain ⟨fee, s₁, hfee, h⟩ := bind_eq_ok.mp h
  obtain ⟨_, s₂, hpay, h⟩ := bind_eq_ok.mp h
  obtain ⟨_, s₃, hdeferred, h⟩ := bind_eq_ok.mp h
  have hpaid := ((paid_payMarketFees hfee).trans (paid_payOrder hpay)).trans
    (paid_payDeferredFee hdeferred)
  rw [Asset.vec_less] at hpaid
  have hlookup : s₃.limitOrders.lookup id = some o := by
    rw [hpaid.rest]
    exact ho
  exact ⟨o, s₃, ho, hid, hne, hpaid, reduceLimitOrder_ok hlookup h⟩

/-- The other limit orders are not touched, and the order is gone when it is filled. -/
theorem LimitFill.lookup {id : ℕ} {o : LimitOrder} {pays : Asset} {filled : Bool} {s s' : Books}
    (h : LimitFill id o pays s filled s') (ho : s.limitOrders.lookup id = some o) (id' : ℕ) :
    s'.limitOrders.lookup id' =
      if id' = id then (if filled then none else some (o.reduced pays.amount))
      else s.limitOrders.lookup id' := by
  cases h with
  | all h => exact Index.lookup_erase _ _ _
  | part h =>
    rw [Index.lookup_modify, ho]
    rfl
  | culled h hpaid => exact Index.lookup_erase _ _ _

theorem postings_limitFill {id : ℕ} {o : LimitOrder} {pays : Asset} {filled : Bool} {s s' : Books}
    (ho : s.limitOrders.lookup id = some o) (hid : o.sellPrice.base.assetId = pays.assetId)
    (hnonneg : 0 ≤ pays.amount) (hle : pays.amount ≤ o.forSale)
    (h : LimitFill id o pays s filled s') :
    Postings L s (-pays.vec - Asset.vec ⟨o.deferredFee, core⟩) s' := by
  have hreduced (hpart : pays ≠ o.amountForSale) :
      Postings L s (-pays.vec - Asset.vec ⟨o.deferredFee, core⟩)
        { s with limitOrders := s.limitOrders.modify id (·.reduced pays.amount) } := by
    have hlt : pays.amount < o.forSale := by
      refine lt_of_le_of_ne hle ?_
      intro heq
      refine hpart ?_
      rw [LimitOrder.amountForSale, ← heq, hid]
    refine (Postings.single (.reduceLimit ho hnonneg hlt)).cast ?_
    rw [vec_neg_amount, hid]
  cases h with
  | all h =>
    refine (Postings.single (.removeLimit ho)).cast ?_
    unfold LimitOrder.holds
    rw [h]
    abel
  | part h => exact hreduced h
  | @culled h s₁ hpaid =>
    have hlookup : s₁.limitOrders.lookup id = some (o.reduced pays.amount) := by
      rw [hpaid.rest]
      change (s.limitOrders.modify id _).lookup id = _
      rw [Index.lookup_modify, if_pos rfl, ho, Option.map_some]
    have herase : s.limitOrders.erase id = s₁.limitOrders.erase id := by
      rw [hpaid.rest]
      exact (Index.erase_modify _ _ _).symm
    rw [herase]
    refine (((hreduced h).trans (.paid hpaid)).trans (.single (.removeLimit hlookup))).cast ?_
    abel

/-- **`fill_order`** of a limit order gives it what it receives and takes what it pays. -/
theorem postings_fillLimitOrder {id : ℕ} {o : LimitOrder} {pays receives : Asset}
    {cull filled : Bool} {s s' : Books} (ho : s.limitOrders.lookup id = some o)
    (hnonneg : 0 ≤ pays.amount) (hle : pays.amount ≤ o.forSale)
    (h : fillLimitOrder id pays receives cull s = .ok filled s') :
    Postings L s (receives.vec - pays.vec) s' := by
  obtain ⟨o', s₁, ho', hid, -, hpaid, hfill⟩ := fillLimitOrder_ok h
  rw [ho] at ho'
  cases ho'
  have hlookup : s₁.limitOrders.lookup id = some o := by
    rw [hpaid.rest]
    exact ho
  refine ((Postings.paid hpaid).trans
    (postings_limitFill hlookup hid hnonneg hle hfill)).cast ?_
  abel

/-! ### Filling call orders and settlements -/

theorem supplied_neg (d : AssetDynamicData) (x : ℤ) :
    { d with currentSupply := d.currentSupply - x } = d.supplied (-x) := by
  unfold AssetDynamicData.supplied
  rw [sub_eq_add_neg]

theorem paid_releaseCollateral {borrower : ℕ} {pays : Asset} {freed : Option Asset} {s s' : Books}
    {u : Unit} (h : releaseCollateral borrower pays freed s = .ok u s') :
    Paid s ((freed.map Asset.vec).getD 0) s' := by
  cases freed with
  | some a =>
    obtain ⟨_, s₁, hrefund, h⟩ := bind_eq_ok.mp h
    exact ((paid_adjustBalance hrefund).trans
      (paid_modifyStatistics (release_pending _ _) h)).cast (add_zero _)
  | none =>
    change (if pays.assetId = core then modifyStatistics borrower (.release none pays)
      else pure ()) s = .ok u s' at h
    split at h
    · exact paid_modifyStatistics (release_pending _ _) h
    · obtain ⟨-, rfl⟩ := pure_eq_ok.mp h
      exact Paid.refl s

theorem removeCallOrder_some {id : ℕ} {freed : Asset} {filled : Bool} {s s' : Books}
    (h : removeCallOrder id (some freed) s = .ok filled s') :
    filled = true ∧ s' = { s with callOrders := s.callOrders.erase id } := by
  unfold removeCallOrder at h
  obtain ⟨_, s₁, herase, h⟩ := bind_eq_ok.mp h
  obtain rfl := update_eq_ok.mp herase
  obtain ⟨rfl, rfl⟩ := pure_eq_ok.mp h
  exact ⟨rfl, rfl⟩

/-- **`fill_order`** of a call order: the order is closed, or stays with less debt and collateral. -/
theorem fillCallOrder_ok {id : ℕ} {pays receives : Asset} {filled : Bool} {s s' : Books}
    (h : fillCallOrder id pays receives s = .ok filled s') :
    ∃ o d, s.callOrders.lookup id = some o ∧ o.debtType = receives.assetId ∧
      o.callPrice.base.assetId = pays.assetId ∧ pays.amount ≤ o.collateral ∧
      s.dynamicData.lookup o.debtType = some d ∧
      (receives.amount = o.debt ∧ filled = true ∧
        Paid { s with
          callOrders := s.callOrders.erase id
          dynamicData := s.dynamicData.insert o.debtType (d.supplied (-o.debt)) }
          (Asset.vec ⟨o.collateral - pays.amount, o.callPrice.base.assetId⟩) s' ∨
      receives.amount ≠ o.debt ∧ filled = false ∧
        Paid { s with
          callOrders := s.callOrders.modify id fun _ =>
            { o with debt := o.debt - receives.amount, collateral := o.collateral - pays.amount }
          dynamicData := s.dynamicData.insert o.debtType (d.supplied (-receives.amount)) } 0 s') := by
  unfold fillCallOrder at h
  rw [get_bind] at h
  obtain ⟨o, ho, h⟩ := require_bind_eq_ok.mp h
  obtain ⟨htype, h⟩ := assert_bind_eq_ok.mp h
  obtain ⟨hbacking, h⟩ := assert_bind_eq_ok.mp h
  obtain ⟨hcollateral, h⟩ := assert_bind_eq_ok.mp h
  simp only at h
  rw [update_bind] at h
  obtain ⟨_, s₂, hdata, h⟩ := bind_eq_ok.mp h
  obtain ⟨d, hd, rfl⟩ := modifyDynamicData_ok hdata
  obtain ⟨_, s₃, hrelease, h⟩ := bind_eq_ok.mp h
  have hpaid := paid_releaseCollateral hrelease
  rw [← htype, supplied_neg] at hpaid
  change s.dynamicData.lookup receives.assetId = some d at hd
  rw [← htype] at hd
  refine ⟨o, d, ho, htype, hbacking, hcollateral, hd, ?_⟩
  by_cases hzero : o.debt - receives.amount = 0
  · -- the order is removed, and the rest of its collateral is paid out
    left
    have hamount : receives.amount = o.debt := by omega
    have hfreed : CallOrder.freed { o with
        debt := o.debt - receives.amount, collateral := o.collateral - pays.amount } =
        some ⟨o.collateral - pays.amount, o.callPrice.base.assetId⟩ := if_pos hzero
    rw [hfreed] at hpaid h
    obtain ⟨rfl, rfl⟩ := removeCallOrder_some h
    have herase : s₃.callOrders.erase id = s.callOrders.erase id := by
      rw [hpaid.rest]
      exact Index.erase_modify _ _ _
    have hafter := hpaid.withCalls (s.callOrders.erase id)
    rw [hamount] at hafter
    rw [herase]
    exact ⟨hamount, rfl, hafter⟩
  · right
    have hfreed : CallOrder.freed { o with
        debt := o.debt - receives.amount, collateral := o.collateral - pays.amount } = none :=
      if_neg hzero
    rw [hfreed, if_neg hzero] at hpaid
    rw [hfreed] at h
    obtain ⟨rfl, rfl⟩ := pure_eq_ok.mp h
    exact ⟨fun heq => hzero (by omega), rfl, hpaid⟩

/-- **`fill_order`** of a call order. What it receives is debt that is paid back. -/
theorem postings_fillCallOrder {id : ℕ} {o : CallOrder} {pays receives : Asset} {filled : Bool}
    {s s' : Books} (hs : Sound s) (ho : s.callOrders.lookup id = some o)
    (hnonneg : 0 ≤ receives.amount) (hle : receives.amount ≤ o.debt)
    (h : fillCallOrder id pays receives s = .ok filled s') :
    Postings L s (receives.vec - pays.vec) s' := by
  have hsound := (hs.calls id o ho).1
  obtain ⟨o', d, ho', htype, hbacking, hcollateral, hd, hfill⟩ := fillCallOrder_ok h
  rw [ho] at ho'
  cases ho'
  have hvec : receives.vec - pays.vec = Asset.vec ⟨receives.amount, o.debtType⟩ -
      Asset.vec ⟨pays.amount, o.callPrice.base.assetId⟩ := by
    rw [htype, hbacking]
  rw [hvec]
  rcases hfill with ⟨hamount, -, hpaid⟩ | ⟨hamount, -, hpaid⟩
  · refine ((Postings.single (.closeCall ho hd)).trans (.paid hpaid)).cast ?_
    rw [Asset.vec_sub, hamount]
    unfold CallOrder.getDebt CallOrder.getCollateral
    abel
  · have hreduced : CallOrder.Sound { o with
        debt := o.debt - receives.amount, collateral := o.collateral - pays.amount } := by
      refine ⟨?_, sub_nonneg.mpr hcollateral, hsound.inRange⟩
      change 0 < o.debt - receives.amount
      omega
    have hchanged := Postings.single (L := L)
      (.changeCall ho hreduced rfl rfl hd fun _ => .inl (sub_le_self _ hnonneg))
    rw [sub_sub_cancel_left, sub_sub_cancel_left] at hchanged
    refine (hchanged.trans (.paid hpaid)).cast ?_
    rw [vec_neg_amount, vec_neg_amount]
    abel

/-- **`cancel_order`** of a force settlement returns what it holds. -/
theorem cancelSettlement_ok {id : ℕ} {s s' : Books} {u : Unit} (h : cancelSettlement id s = .ok u s') :
    ∃ o s₁, s.settlements.lookup id = some o ∧ Paid s o.balance.vec s₁ ∧
      s' = { s₁ with settlements := s.settlements.erase id } := by
  unfold cancelSettlement at h
  rw [get_bind] at h
  obtain ⟨o, ho, h⟩ := require_bind_eq_ok.mp h
  obtain ⟨_, s₁, hrefund, h⟩ := bind_eq_ok.mp h
  obtain rfl := update_eq_ok.mp h
  have hpaid := paid_adjustBalance hrefund
  have hsame : s₁.settlements = s.settlements := by
    rw [hpaid.rest]
  exact ⟨o, s₁, ho, hpaid, by rw [hsame]⟩

theorem postings_cancelSettlement {id : ℕ} {s s' : Books} {u : Unit}
    (h : cancelSettlement id s = .ok u s') : Postings L s 0 s' := by
  obtain ⟨o, s₁, ho, hpaid, rfl⟩ := cancelSettlement_ok h
  have hsame : s₁.settlements = s.settlements := by
    rw [hpaid.rest]
  rw [← hsame] at ho ⊢
  exact ((Postings.paid hpaid).trans (.single (.removeSettlement ho))).cast (add_neg_cancel _)

theorem Asset.lt_eq_ok {a b : Asset} {less : Bool} (h : a.lt b = .ok less) :
    a.assetId = b.assetId ∧ (less = true ↔ a.amount < b.amount) := by
  unfold Asset.lt at h
  split at h
  · next hid =>
    cases h
    exact ⟨hid, decide_eq_true_iff⟩
  · cases h

theorem Paid.withSettlements {s s' : Books} {v : ℕ → ℤ} (h : Paid s v s') (t : Index ForceSettlement) :
    Paid { s with settlements := t } v { s' with settlements := t } where
  rest := by
    rw [h.rest]
  cash := h.cash
  balances := h.balances
  funds := h.funds
  pending := h.pending
  supply := h.supply

/-- **`fill_order`** of a force settlement: the payment, and what becomes of the settlement. -/
theorem fillSettlement_ok {id : ℕ} {pays receives : Asset} {filled : Bool} {s s' : Books}
    (h : fillSettlement id pays receives s = .ok filled s') :
    ∃ o s₁, s.settlements.lookup id = some o ∧ pays.assetId = o.balance.assetId ∧
      (filled = true ↔ o.balance.amount ≤ pays.amount) ∧ Paid s receives.vec s₁ ∧
      s' = { s₁ with settlements := if filled then s.settlements.erase id
        else s.settlements.modify id fun o => { o with balance := o.balance.less pays.amount } } := by
  unfold fillSettlement at h
  rw [get_bind] at h
  obtain ⟨o, ho, h⟩ := require_bind_eq_ok.mp h
  obtain ⟨fee, s₁, hfee, h⟩ := bind_eq_ok.mp h
  obtain ⟨less, hless, h⟩ := lift_bind_eq_ok.mp h
  obtain ⟨hid, hlt⟩ := Asset.lt_eq_ok hless
  obtain ⟨_, s₂, hreduce, h⟩ := bind_eq_ok.mp h
  obtain ⟨_, s₃, hpay, h⟩ := bind_eq_ok.mp h
  obtain ⟨_, s₄, hremove, h⟩ := bind_eq_ok.mp h
  obtain ⟨rfl, rfl⟩ := pure_eq_ok.mp h
  have hfeePaid := paid_payMarketFees hfee
  have hsame : s₁.settlements = s.settlements := by
    rw [hfeePaid.rest]
  have hpaid := (paid_adjustBalance hpay).withSettlements s.settlements
  have hwhole : ∀ {s₅ : Books}, Paid { s₁ with settlements := s.settlements } (receives.less fee).vec s₅ →
      Paid s receives.vec s₅ := by
    intro s₅ hrest
    rw [← Asset.vec_less receives fee]
    rw [← hsame] at hrest
    exact hfeePaid.trans hrest
  refine ⟨o, { s₃ with settlements := s.settlements }, ho, hid, ?_⟩
  cases less with
  | true =>
    rw [reduceSettlement, if_neg (by decide)] at hreduce
    rw [removeSettlement, if_neg (by decide)] at hremove
    obtain rfl := update_eq_ok.mp hreduce
    obtain ⟨-, rfl⟩ := pure_eq_ok.mp hremove
    refine ⟨iff_of_false (by decide) (not_le.mpr (hlt.mp rfl)), hwhole hpaid, ?_⟩
    rw [(paid_adjustBalance hpay).rest, hsame]
    rfl
  | false =>
    rw [reduceSettlement, if_pos (by decide)] at hreduce
    rw [removeSettlement, if_pos (by decide)] at hremove
    obtain ⟨-, rfl⟩ := pure_eq_ok.mp hreduce
    obtain rfl := update_eq_ok.mp hremove
    have hge : ¬ pays.amount < o.balance.amount := fun h => absurd (hlt.mpr h) (by decide)
    refine ⟨iff_of_true (by decide) (not_lt.mp hge), hwhole hpaid, ?_⟩
    rw [(paid_adjustBalance hpay).rest, hsame]
    rfl

/-- **`fill_order`** of a force settlement. -/
theorem postings_fillSettlement {id : ℕ} {o : ForceSettlement} {pays receives : Asset} {filled : Bool}
    {s s' : Books} (ho : s.settlements.lookup id = some o) (hnonneg : 0 ≤ pays.amount)
    (hle : pays.amount ≤ o.balance.amount) (h : fillSettlement id pays receives s = .ok filled s') :
    Postings L s (receives.vec - pays.vec) s' := by
  obtain ⟨o', s₁, ho', hid, hfilled, hpaid, rfl⟩ := fillSettlement_ok h
  rw [ho] at ho'
  cases ho'
  have hsame : s₁.settlements = s.settlements := by
    rw [hpaid.rest]
  rw [← hsame] at ho ⊢
  cases filled with
  | false =>
    refine ((Postings.paid hpaid).trans (.single (.reduceSettlement ho hnonneg hle))).cast ?_
    rw [vec_neg_amount, ← hid]
    exact (sub_eq_add_neg _ _).symm
  | true =>
    have hall : pays = o.balance := by
      have hamount : pays.amount = o.balance.amount := le_antisymm hle (hfilled.mp rfl)
      cases pays
      cases hbalance : o.balance
      rw [hbalance] at hid hamount
      exact congr (congrArg Asset.mk hamount) hid
    refine ((Postings.paid hpaid).trans (.single (.removeSettlement ho))).cast ?_
    rw [hall]
    exact (sub_eq_add_neg _ _).symm

/-! ### Matching -/

/-- Amounts of one asset can be compared. -/
theorem Asset.le_of_same {a b : Asset} (h : a.assetId = b.assetId) :
    a.le b = .ok (decide (a.amount ≤ b.amount)) := by
  unfold Asset.le Asset.lt
  rw [if_pos h]
  by_cases heq : a = b
  · rw [if_pos heq, heq, decide_eq_true (le_refl b.amount)]
  · have hne : a.amount ≠ b.amount := by
      intro hamount
      refine heq ?_
      calc a = ⟨a.amount, a.assetId⟩ := rfl
        _ = ⟨b.amount, b.assetId⟩ := by rw [hamount, h]
    rw [if_neg heq, decide_eq_decide.mpr (le_iff_lt_or_eq.trans (or_iff_left hne)).symm]

theorem Asset.le_eq_ok {a b : Asset} {fits : Bool} (h : a.le b = .ok fits) :
    a.assetId = b.assetId ∧ (fits = true ↔ a.amount ≤ b.amount) := by
  unfold Asset.le at h
  split at h
  · next heq =>
    cases h
    rw [heq]
    exact ⟨rfl, fun _ => le_rfl, fun _ => rfl⟩
  · next hne =>
    obtain ⟨hid, hlt⟩ := Asset.lt_eq_ok h
    refine ⟨hid, fun hfits => (hlt.mp hfits).le, fun hle => hlt.mpr ?_⟩
    refine lt_of_le_of_ne hle ?_
    intro hamount
    cases a
    cases b
    exact hne (congr (congrArg Asset.mk hamount) hid)

theorem uint128_mul {x y : ℤ} (hx : 0 ≤ x) (hx' : x < 2 ^ 64) (hy : 0 ≤ y) (hy' : y < 2 ^ 64) :
    uint128 (uint128 x * y) = x * y := by
  rw [uint128_of_lt hx (lt_trans hx' (by decide))]
  refine uint128_of_lt (mul_nonneg hx hy) ?_
  calc x * y ≤ x * 2 ^ 64 := mul_le_mul_of_nonneg_left hy'.le hx
    _ < 2 ^ 64 * 2 ^ 64 := mul_lt_mul_of_pos_right hx' (by decide)
    _ = 2 ^ 128 := by decide

/-- Without overflow a conversion is a division. -/
theorem Asset.convert_eq_div {amount : ℤ} {num den a : Asset} (hamount : 0 ≤ amount)
    (hamount' : amount < 2 ^ 64) (hnum : 0 ≤ num.amount) (hnum' : num.amount < 2 ^ 64)
    (h : convert amount num den = .ok a) :
    0 < den.amount ∧ a = ⟨amount * num.amount / den.amount, num.assetId⟩ ∧
      a.amount ≤ maxShareSupply := by
  obtain ⟨hden, hle, rfl⟩ := convert_eq_ok.mp h
  rw [uint128_mul hamount hamount' hnum hnum'] at hle ⊢
  exact ⟨hden, rfl, hle⟩

/-- There and back again at one price is no more than before. -/
theorem div_mul_div_le {x y b q : ℤ} (hb : 0 < b) (hq : 0 < q) (h : x ≤ y * q / b) :
    x * b / q ≤ y := by
  have hx : x * b ≤ y * q := by
    calc x * b ≤ y * q / b * b := mul_le_mul_of_nonneg_right h hb.le
      _ ≤ y * q := Int.ediv_mul_le _ hb.ne'
  calc x * b / q ≤ y * q / q := Int.ediv_le_ediv hq hx
    _ = y := Int.mul_ediv_cancel _ hq.ne'

/-- An amount of the base of a sound order's price, at that price. -/
theorem LimitOrder.Sound.mul_of_base {o : LimitOrder} (ho : o.Sound) {a b : Asset}
    (hid : a.assetId = o.sellPrice.base.assetId) (ha : 0 ≤ a.amount) (ha' : a.amount < 2 ^ 64)
    (h : a.mul o.sellPrice = .ok b) :
    b = ⟨a.amount * o.sellPrice.quote.amount / o.sellPrice.base.amount,
      o.sellPrice.quote.assetId⟩ := by
  rw [Asset.mul_of_base hid] at h
  exact (Asset.convert_eq_div ha ha' ho.quote_pos.le (lt_trans ho.quote_lt (by decide)) h).2.1

/-- An amount of the quote of a sound order's price, at that price. -/
theorem LimitOrder.Sound.mul_of_quote {o : LimitOrder} (ho : o.Sound) {a b : Asset}
    (hid : a.assetId = o.sellPrice.quote.assetId) (ha : 0 ≤ a.amount) (ha' : a.amount < 2 ^ 64)
    (h : a.mul o.sellPrice = .ok b) :
    b = ⟨a.amount * o.sellPrice.base.amount / o.sellPrice.quote.amount,
      o.sellPrice.base.assetId⟩ := by
  unfold Asset.mul at h
  rw [if_neg (fun heq => ho.assets_ne (heq.symm.trans hid)), if_pos hid] at h
  exact (Asset.convert_eq_div ha ha' (ho.forSale_pos.le.trans ho.forSale_le)
    (lt_trans ho.base_lt (by decide)) h).2.1

/-- Two limit orders exchange no more than they have, at the price of one of them, and one of them
is used up. -/
theorem exchanged_ok {usd coreOrder : LimitOrder} {receives pays : Asset} (husd : usd.Sound)
    (hcore : coreOrder.Sound)
    (h : exchanged usd.amountForSale coreOrder.amountForSale coreOrder.sellPrice =
      .ok (receives, pays)) :
    usd.sellPrice.base.assetId = coreOrder.sellPrice.quote.assetId ∧
      (0 ≤ pays.amount ∧ pays.amount ≤ usd.forSale) ∧
      (0 ≤ receives.amount ∧ receives.amount ≤ coreOrder.forSale) ∧
      (pays = usd.amountForSale ∨ receives = coreOrder.amountForSale) := by
  have hcoreLt : coreOrder.forSale < 2 ^ 64 :=
    lt_of_le_of_lt hcore.forSale_le (lt_trans hcore.base_lt (by decide))
  have husdLt : usd.forSale < 2 ^ 64 :=
    lt_of_le_of_lt husd.forSale_le (lt_trans husd.base_lt (by decide))
  unfold exchanged at h
  obtain ⟨wanted, hwanted, h⟩ := except_bind_eq_ok.mp h
  obtain rfl := hcore.mul_of_base (a := coreOrder.amountForSale) rfl hcore.forSale_pos.le hcoreLt
    hwanted
  obtain ⟨fits, hfits, h⟩ := except_bind_eq_ok.mp h
  obtain ⟨hid, hle⟩ := Asset.le_eq_ok hfits
  have hbase : 0 < coreOrder.sellPrice.base.amount := hcore.forSale_pos.trans_le hcore.forSale_le
  refine ⟨hid, ?_⟩
  split at h
  · next htrue =>
    -- all of the first order is sold
    obtain ⟨received, hreceived, h⟩ := except_bind_eq_ok.mp h
    cases h
    have hreceives := hcore.mul_of_quote hid husd.forSale_pos.le husdLt hreceived
    refine ⟨⟨husd.forSale_pos.le, le_rfl⟩, ?_, .inl rfl⟩
    rw [hreceives]
    refine ⟨Int.ediv_nonneg (mul_nonneg husd.forSale_pos.le hbase.le) hcore.quote_pos.le, ?_⟩
    exact div_mul_div_le hbase hcore.quote_pos (hle.mp htrue)
  · next hfalse =>
    obtain ⟨paid, hpaid, h⟩ := except_bind_eq_ok.mp h
    cases h
    have hpays := hcore.mul_of_base (a := coreOrder.amountForSale) rfl hcore.forSale_pos.le hcoreLt
      hpaid
    refine ⟨?_, ⟨hcore.forSale_pos.le, le_rfl⟩, .inr rfl⟩
    rw [hpays]
    refine ⟨Int.ediv_nonneg (mul_nonneg hcore.forSale_pos.le hcore.quote_pos.le) hbase.le, ?_⟩
    by_contra hlt
    exact hfalse (hle.mpr (not_le.mp hlt).le)

/-- The two fills of a match of limit orders, at the price of the second one. -/
structure Matched (usdId coreId : ℕ) (usd coreOrder : LimitOrder) (receives pays : Asset)
    (filled : Bool × Bool) (s s₁ s' : Books) : Prop where
  usd_lookup : s.limitOrders.lookup usdId = some usd
  core_lookup : s₁.limitOrders.lookup coreId = some coreOrder
  ids_ne : coreId ≠ usdId
  pays_nonneg : 0 ≤ pays.amount
  pays_le : pays.amount ≤ usd.forSale
  receives_nonneg : 0 ≤ receives.amount
  receives_le : receives.amount ≤ coreOrder.forSale
  usedUp : pays = usd.amountForSale ∨ receives = coreOrder.amountForSale
  first : fillLimitOrder usdId pays receives false s = .ok filled.1 s₁
  second : fillLimitOrder coreId receives pays true s₁ = .ok filled.2 s'

/-- **`fill_order`** and the limit orders. -/
theorem fillLimitOrder_lookup {id : ℕ} {o : LimitOrder} {pays receives : Asset} {cull filled : Bool}
    {s s' : Books} (ho : s.limitOrders.lookup id = some o)
    (h : fillLimitOrder id pays receives cull s = .ok filled s') (id' : ℕ) :
    s'.limitOrders.lookup id' =
      if id' = id then (if filled then none else some (o.reduced pays.amount))
      else s.limitOrders.lookup id' := by
  obtain ⟨o', s₁, ho', -, -, hpaid, hfill⟩ := fillLimitOrder_ok h
  rw [ho] at ho'
  cases ho'
  have hsame : s₁.limitOrders = s.limitOrders := by
    rw [hpaid.rest]
  rw [hfill.lookup (by rw [hsame]; exact ho), hsame]

theorem matchLimitOrders_ok {usdId coreId : ℕ} {coreOrder : LimitOrder} {filled : Bool × Bool}
    {s s' : Books} (hs : Sound s) (hcore : s.limitOrders.lookup coreId = some coreOrder)
    (h : matchLimitOrders usdId coreId coreOrder.sellPrice s = .ok filled s') :
    ∃ usd receives pays s₁, Matched usdId coreId usd coreOrder receives pays filled s s₁ s' := by
  unfold matchLimitOrders at h
  rw [get_bind] at h
  obtain ⟨usd, husd, h⟩ := require_bind_eq_ok.mp h
  obtain ⟨coreOrder', hcore', h⟩ := require_bind_eq_ok.mp h
  rw [hcore] at hcore'
  cases hcore'
  obtain ⟨⟨receives, pays⟩, hexchanged, h⟩ := lift_bind_eq_ok.mp h
  obtain ⟨usdFilled, s₁, hfillUsd, h⟩ := bind_eq_ok.mp h
  obtain ⟨coreFilled, s₂, hfillCore, h⟩ := bind_eq_ok.mp h
  obtain ⟨rfl, rfl⟩ := pure_eq_ok.mp h
  have hcoreSound := hs.limits coreId coreOrder hcore
  obtain ⟨hids, ⟨hpays, hpaysLe⟩, ⟨hreceives, hreceivesLe⟩, husedUp⟩ :=
    exchanged_ok (hs.limits usdId usd husd) hcoreSound hexchanged
  have hne : coreId ≠ usdId := by
    rintro rfl
    rw [husd] at hcore
    cases hcore
    exact hcoreSound.assets_ne hids
  have hlookup : s₁.limitOrders.lookup coreId = some coreOrder := by
    rw [fillLimitOrder_lookup husd hfillUsd, if_neg hne]
    exact hcore
  exact ⟨usd, receives, pays, s₁, husd, hlookup, hne, hpays, hpaysLe, hreceives, hreceivesLe, husedUp,
    hfillUsd, hfillCore⟩

theorem postings_matchLimitOrders {usdId coreId : ℕ} {coreOrder : LimitOrder} {filled : Bool × Bool}
    {s s' : Books} (hs : Sound s) (hcore : s.limitOrders.lookup coreId = some coreOrder)
    (h : matchLimitOrders usdId coreId coreOrder.sellPrice s = .ok filled s') :
    Postings L s 0 s' := by
  obtain ⟨usd, receives, pays, s₁, hmatched⟩ := matchLimitOrders_ok hs hcore h
  have hfirst := postings_fillLimitOrder (L := L) hmatched.usd_lookup hmatched.pays_nonneg
    hmatched.pays_le hmatched.first
  have hsecond := postings_fillLimitOrder (L := L) hmatched.core_lookup hmatched.receives_nonneg
    hmatched.receives_le hmatched.second
  refine (hfirst.trans hsecond).cast ?_
  abel

theorem Asset.min_eq_ok {a b c : Asset} (h : a.min b = .ok c) :
    c.assetId = a.assetId ∧ c.assetId = b.assetId ∧ c.amount = Min.min a.amount b.amount := by
  unfold Asset.min at h
  cases hlt : b.lt a with
  | error e =>
    rw [hlt] at h
    cases h
  | ok less =>
    rw [hlt] at h
    change Except.ok (if less then b else a) = Except.ok c at h
    obtain ⟨hid, hless⟩ := Asset.lt_eq_ok hlt
    split at h
    · next htrue =>
      cases h
      exact ⟨hid, rfl, (min_eq_right (hless.mp htrue).le).symm⟩
    · next hfalse =>
      cases h
      refine ⟨rfl, hid.symm, (min_eq_left ?_).symm⟩
      exact not_lt.mp fun hlt => hfalse (hless.mpr hlt)

/-- The two fills that `match` of a call order and a force settlement consists of, with as much as the
settlement, the volume and the debt allow. -/
theorem matchSettlement_fills {callId settleId : ℕ} {price : Price} {maxSettlement settled : Asset}
    {s s' : Books} (h : matchSettlement callId settleId price maxSettlement s = .ok settled s') :
    ∃ call settle pays filledCall filledSettle s₁, s.callOrders.lookup callId = some call ∧
      s.settlements.lookup settleId = some settle ∧ 0 < call.debt ∧ 0 < settle.balance.amount ∧
      settled.assetId = settle.balance.assetId ∧
      settled.amount = min (min settle.balance.amount maxSettlement.amount) call.debt ∧
      fillCallOrder callId pays settled s = .ok filledCall s₁ ∧
      fillSettlement settleId settled pays s₁ = .ok filledSettle s' := by
  unfold matchSettlement at h
  rw [get_bind] at h
  obtain ⟨call, hcall, h⟩ := require_bind_eq_ok.mp h
  obtain ⟨settle, hsettle, h⟩ := require_bind_eq_ok.mp h
  obtain ⟨-, h⟩ := assert_bind_eq_ok.mp h
  obtain ⟨⟨hdebt, -, hbalance⟩, h⟩ := assert_bind_eq_ok.mp h
  obtain ⟨forSale, hforSale, h⟩ := lift_bind_eq_ok.mp h
  obtain ⟨receives, hreceives, h⟩ := lift_bind_eq_ok.mp h
  obtain ⟨pays, -, h⟩ := lift_bind_eq_ok.mp h
  obtain ⟨covered, -, h⟩ := lift_bind_eq_ok.mp h
  obtain ⟨-, h⟩ := assert_bind_eq_ok.mp h
  obtain ⟨filledCall, s₁, hfillCall, h⟩ := bind_eq_ok.mp h
  obtain ⟨filledSettle, s₂, hfillSettle, h⟩ := bind_eq_ok.mp h
  obtain ⟨rfl, rfl⟩ := pure_eq_ok.mp h
  obtain ⟨hid, -, hforSale⟩ := Asset.min_eq_ok hforSale
  obtain ⟨hid', -, hreceives⟩ := Asset.min_eq_ok hreceives
  refine ⟨call, settle, pays, filledCall, filledSettle, s₁, hcall, hsettle, hdebt, hbalance,
    hid'.trans hid, ?_, hfillCall, hfillSettle⟩
  rw [hreceives, hforSale]
  rfl

/-- **`match`** of a call order and a force settlement. -/
theorem postings_matchSettlement {callId settleId : ℕ} {price : Price} {maxSettlement settled : Asset}
    {s s' : Books} (hs : Sound s) (hmax : 0 ≤ maxSettlement.amount)
    (h : matchSettlement callId settleId price maxSettlement s = .ok settled s') :
    Postings L s 0 s' := by
  obtain ⟨call, settle, pays, filledCall, filledSettle, s₁, hcall, hsettle, hdebt, hbalance, -, hamount,
    hfillCall, hfillSettle⟩ := matchSettlement_fills h
  have hnonneg : 0 ≤ settled.amount := by omega
  have hle : settled.amount ≤ call.debt := by omega
  have hleBalance : settled.amount ≤ settle.balance.amount := by omega
  have hlookup : s₁.settlements.lookup settleId = some settle := by
    obtain ⟨o, d, -, -, -, -, -, hfill⟩ := fillCallOrder_ok hfillCall
    rcases hfill with ⟨-, -, hpaid⟩ | ⟨-, -, hpaid⟩
    · rw [hpaid.rest]
      exact hsettle
    · rw [hpaid.rest]
      exact hsettle
  refine ((postings_fillCallOrder hs hcall hnonneg hle hfillCall).trans
    (postings_fillSettlement hlookup hnonneg hleBalance hfillSettle)).cast ?_
  abel

end FinChain.Ledger
