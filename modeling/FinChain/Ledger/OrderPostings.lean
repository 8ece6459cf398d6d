import FinChain.Ledger.AssetPostings
import FinChain.Ledger.Orders

/-!
# Operations on orders as postings

A new limit order takes what it sells from the balance of the seller, and its fee if that is
deferred. A margin position changes together with the supply, and the collateral goes from the
balance into the call order. What was said about the amounts of a call order has to hold for its new
debt and collateral, too, which is why they must be `share_type` before the operation.
-/

namespace FinChain.Ledger

open Exec

variable {L : Licence} {skip : Bool}

/-- Amounts that the objects keep as `share_type`. The code throws when one of them would not fit. -/
structure Books.Fits (s : Books) : Prop where
  calls : ∀ id o, s.callOrders.lookup id = some o → o.debt < 2 ^ 63 ∧ o.collateral < 2 ^ 63
  prices : ∀ k b, s.bitassets.lookup k = some b →
    b.settlementPrice.base.amount < 2 ^ 63 ∧ b.settlementPrice.quote.amount < 2 ^ 63

/-! ### Limit orders -/

theorem LimitOrderCreate.doEvaluate_read {S : Settings} {op : LimitOrderCreate} {s s₁ : Books}
    {m : Unit} (h : op.doEvaluate S s = .ok m s₁) : s₁ = s := by
  unfold doEvaluate at h
  rw [get_bind] at h
  obtain ⟨-, h⟩ := assert_bind_eq_ok.mp h
  obtain ⟨a, -, h⟩ := require_bind_eq_ok.mp h
  obtain ⟨-, -, h⟩ := require_bind_eq_ok.mp h
  obtain ⟨-, h⟩ := assert_bind_eq_ok.mp h
  obtain ⟨-, h⟩ := assert_bind_eq_ok.mp h
  obtain ⟨-, h⟩ := assert_bind_eq_ok.mp h
  obtain ⟨-, h⟩ := assert_bind_eq_ok.mp h
  exact (assert_eq_ok.mp h).2

theorem intoOrders_pending (a : Asset) (x : AccountStatistics) :
    (LimitOrderCreate.intoOrders a x).pendingFees = x.pendingFees ∧
      (LimitOrderCreate.intoOrders a x).pendingVestedFees = x.pendingVestedFees := by
  unfold LimitOrderCreate.intoOrders
  split
  · exact ⟨rfl, rfl⟩
  · exact ⟨rfl, rfl⟩

/-- The order that the operation creates. -/
def LimitOrderCreate.newOrder (op : LimitOrderCreate) (deferredFee : ℕ) : LimitOrder where
  expiration := op.expiration
  seller := op.seller
  forSale := op.amountToSell.amount
  sellPrice := ⟨op.amountToSell, op.minToReceive⟩
  deferredFee := deferredFee

theorem LimitOrderCreate.newOrder_sound {op : LimitOrderCreate} (fee : ℕ)
    (hne : op.amountToSell.assetId ≠ op.minToReceive.assetId) (hsell : 0 < op.amountToSell.amount)
    (hreceive : 0 < op.minToReceive.amount) : (op.newOrder fee).Sound where
  forSale_pos := hsell
  forSale_le := le_rfl
  base_lt := op.amountToSell_fits.2
  quote_pos := hreceive
  quote_lt := op.minToReceive_fits.2
  assets_ne := hne

/-- The steps of **`limit_order_create`**: payments, the new order, `apply_order`, and the fee. -/
theorem limitOrderCreate_ok {S : Settings} {op : LimitOrderCreate} {s s' : Books} {u : Unit}
    (h : (op.evaluator S).run S skip s = .ok u s') :
    ∃ fee v s₁ filled s₂, Paid s v s₁ ∧
      applyOrder s₁.limitOrders.next true
        { s₁ with limitOrders := s₁.limitOrders.create (op.newOrder fee) } = .ok filled s₂ ∧
      Paid s₂ (-op.fee.vec) s' ∧ v + (op.newOrder fee).holds = op.fee.vec := by
  obtain ⟨f, m, s₂, s₃, s₄, hprepare, -, hconvert, hfee, happly, hlast⟩ :=
    Evaluator.run_paid LimitOrderCreate.doEvaluate_read (fun f _ => le_refl f) h
  obtain ⟨-, -, hnonneg, hcore, -⟩ := prepareFee_ok hprepare
  change op.payFee f s₂ = _ at hfee
  unfold LimitOrderCreate.payFee at hfee
  rw [get_bind] at hfee
  change op.doApply f s₃ = _ at happly
  unfold LimitOrderCreate.doApply at happly
  obtain ⟨_, s₅, hstatistics, happly⟩ := bind_eq_ok.mp happly
  obtain ⟨_, s₆, hsell, happly⟩ := bind_eq_ok.mp happly
  obtain ⟨orderId, s₇, hcreate, happly⟩ := bind_eq_ok.mp happly
  obtain ⟨filled, s₈, happlied, happly⟩ := bind_eq_ok.mp happly
  obtain ⟨-, rfl⟩ := assert_eq_ok.mp happly
  unfold LimitOrderCreate.createOrder at hcreate
  rw [get_bind] at hcreate
  obtain ⟨price, hprice, hcreate⟩ := lift_bind_eq_ok.mp hcreate
  rw [update_bind] at hcreate
  obtain ⟨rfl, rfl⟩ := pure_eq_ok.mp hcreate
  have hprice' : price = ⟨op.amountToSell, op.minToReceive⟩ := by
    unfold Asset.div at hprice
    split at hprice
    · cases hprice
      rfl
    · cases hprice
  subst hprice'
  have hsold := (paid_modifyStatistics (intoOrders_pending _) hstatistics).trans
    (paid_adjustBalance hsell)
  have hhead : s₆.headTime = s₃.headTime := by rw [hsold.rest]
  have hvec : Asset.vec ⟨(f.toNat : ℤ), core⟩ = Asset.vec ⟨f, core⟩ := by
    rw [Int.toNat_of_nonneg hnonneg]
  by_cases hfork : s₂.headTime ≤ hardfork445Time
  · -- the fee is paid as that of any other operation
    rw [if_pos hfork] at hfee
    have hpaid := paid_payFee hnonneg hfee
    have hall := ((hconvert.trans hpaid).cast (fee_vec hcore)).trans hsold
    have hhead₆ : s₆.headTime ≤ hardfork445Time := by
      rw [hhead, hpaid.rest]
      exact hfork
    rw [if_pos hhead₆] at happlied
    refine ⟨0, _, s₆, filled, s₄, hall, happlied, hlast, ?_⟩
    unfold LimitOrder.holds LimitOrder.amountForSale LimitOrderCreate.newOrder
    rw [Nat.cast_zero, Asset.vec_of_zero (a := ⟨0, core⟩) rfl, Asset.vec_neg]
    change op.fee.vec + (0 + -op.amountToSell.vec) + (op.amountToSell.vec + 0) = op.fee.vec
    abel
  · -- the fee stays in the order
    rw [if_neg hfork] at hfee
    obtain ⟨-, rfl⟩ := pure_eq_ok.mp hfee
    have hall := hconvert.trans hsold
    have hhead₆ : ¬ s₆.headTime ≤ hardfork445Time := by
      rw [hhead]
      exact hfork
    rw [if_neg hhead₆] at happlied
    refine ⟨f.toNat, _, s₆, filled, s₄, hall, happlied, hlast, ?_⟩
    unfold LimitOrder.holds LimitOrder.amountForSale LimitOrderCreate.newOrder
    rw [hvec, Asset.vec_neg]
    refine Eq.trans ?_ (fee_vec hcore)
    change _ + (0 + -op.amountToSell.vec) + (op.amountToSell.vec + Asset.vec ⟨f, core⟩) =
      _ + Asset.vec ⟨f, core⟩
    rw [zero_add, add_assoc, neg_add_cancel_left]
    rfl

theorem postings_limitOrderCreate {S : Settings} {op : LimitOrderCreate} {s s' : Books} {u : Unit}
    (hs : L.Keeps s) (hL : L.orders) (hne : op.amountToSell.assetId ≠ op.minToReceive.assetId)
    (hsell : 0 < op.amountToSell.amount) (hreceive : 0 < op.minToReceive.amount)
    (h : (op.evaluator S).run S skip s = .ok u s') : Postings L s 0 s' := by
  obtain ⟨fee, v, s₁, filled, s₂, hpaid, happly, hlast, hvec⟩ := limitOrderCreate_ok h
  have hsound := LimitOrderCreate.newOrder_sound fee hne hsell hreceive
  have hcreate := (Postings.paid hpaid).trans (.single (.createLimit hL hsound))
  refine ((hcreate.trans (postings_applyOrder (hcreate.keeps hs) happly)).trans
    (.paid hlast)).cast ?_
  rw [hvec, add_zero]
  exact add_neg_cancel _

theorem LimitOrderCancel.doEvaluate_read {op : LimitOrderCancel} {s s₁ : Books} {o : LimitOrder}
    (h : op.doEvaluate s = .ok o s₁) : s₁ = s := by
  unfold doEvaluate at h
  rw [get_bind] at h
  obtain ⟨o', -, h⟩ := require_bind_eq_ok.mp h
  obtain ⟨-, h⟩ := assert_bind_eq_ok.mp h
  exact (pure_eq_ok.mp h).2.symm

theorem postings_limitOrderCancel {S : Settings} {op : LimitOrderCancel} {s s' : Books}
    {u : Unit} (hs : L.Keeps s) (h : op.evaluator.run S skip s = .ok u s') : Postings L s 0 s' := by
  refine postings_run hs rfl rfl LimitOrderCancel.doEvaluate_read ?_ h
  intro f o v s₁ s₂ _ _ hs₁ happly
  change op.doApply o s₁ = _ at happly
  unfold LimitOrderCancel.doApply at happly
  obtain ⟨_, s₃, hcancel, happly⟩ := bind_eq_ok.mp happly
  rw [get_bind] at happly
  obtain ⟨-, -, happly⟩ := require_bind_eq_ok.mp happly
  obtain ⟨_, s₄, hbase, happly⟩ := bind_eq_ok.mp happly
  rw [get_bind] at happly
  obtain ⟨-, -, happly⟩ := require_bind_eq_ok.mp happly
  obtain ⟨_, s₅, hquote, happly⟩ := bind_eq_ok.mp happly
  obtain ⟨-, rfl⟩ := pure_eq_ok.mp happly
  have h₃ := postings_cancelLimitOrder (L := L) hcancel
  have h₄ := (h₃.trans (postings_checkCallOrders (h₃.keeps hs₁) hbase)).cast (add_zero 0)
  exact (h₄.trans (postings_checkCallOrders (h₄.keeps hs₁) hquote)).cast (add_zero 0)

/-! ### Margin positions -/

theorem CallOrderUpdate.doEvaluate_ok {op : CallOrderUpdate} {s s₁ : Books} {b : BitassetData}
    (h : op.doEvaluate s = .ok b s₁) :
    s₁ = s ∧ s.bitassets.lookup op.deltaDebt.assetId = some b ∧ b.hasSettlement = false ∧
      op.deltaCollateral.assetId = b.shortBackingAsset := by
  unfold doEvaluate at h
  rw [get_bind] at h
  obtain ⟨-, -, h⟩ := require_bind_eq_ok.mp h
  obtain ⟨-, -, h⟩ := require_bind_eq_ok.mp h
  obtain ⟨b', hb, h⟩ := require_bind_eq_ok.mp h
  obtain ⟨hunsettled, h⟩ := assert_bind_eq_ok.mp h
  obtain ⟨hbacking, h⟩ := assert_bind_eq_ok.mp h
  have hread : ∀ {u s₂}, op.checkFeed b' s = .ok u s₂ → s₂ = s := by
    intro u s₂ hcheck
    unfold checkFeed at hcheck
    split at hcheck
    · exact (assert_eq_ok.mp hcheck).2
    · exact (assert_eq_ok.mp hcheck).2
  obtain ⟨-, -, h⟩ := bind_eq_ok_of_read hread h
  obtain ⟨-, h⟩ := assert_bind_eq_ok.mp h
  obtain ⟨-, h⟩ := assert_bind_eq_ok.mp h
  obtain ⟨rfl, rfl⟩ := pure_eq_ok.mp h
  exact ⟨rfl, hb, hunsettled, hbacking⟩

theorem CallOrderUpdate.paid_moveCollateral {op : CallOrderUpdate} {s s' : Books} {u : Unit}
    (h : op.moveCollateral s = .ok u s') : Paid s (-op.deltaCollateral.vec) s' := by
  unfold moveCollateral at h
  split at h
  · next hzero =>
    obtain ⟨-, rfl⟩ := pure_eq_ok.mp h
    refine (Paid.refl s).cast ?_
    rw [Asset.vec_of_zero hzero, neg_zero]
  obtain ⟨_, s₁, hbalance, h⟩ := bind_eq_ok.mp h
  have hpaid := paid_adjustBalance hbalance
  rw [Asset.vec_neg] at hpaid
  unfold trackCollateral at h
  split at h
  · exact (hpaid.trans (paid_modifyStatistics (intoOrders_pending _) h)).cast (add_zero _)
  · obtain ⟨-, rfl⟩ := pure_eq_ok.mp h
    exact hpaid

/-- The payments of a margin position, with the supply that changes between them. -/
inductive CallOrderUpdate.Funded (op : CallOrderUpdate) (s : Books) : Books → Prop
  | collateral {s' : Books} (hdebt : op.deltaDebt.amount = 0)
      (hpaid : Paid s (-op.deltaCollateral.vec) s') : op.Funded s s'
  | debt {s₁ s' : Books} {d : AssetDynamicData} (hdebt : op.deltaDebt.amount ≠ 0)
      (hpaid : Paid s op.deltaDebt.vec s₁)
      (hd : s₁.dynamicData.lookup op.deltaDebt.assetId = some d)
      (hpaid' : Paid { s₁ with
        dynamicData := s₁.dynamicData.insert op.deltaDebt.assetId
          (d.supplied op.deltaDebt.amount) } (-op.deltaCollateral.vec) s') : op.Funded s s'

theorem CallOrderUpdate.funded {op : CallOrderUpdate} {s s₁ s' : Books} {u u' : Unit}
    (hdebt : op.moveDebt s = .ok u s₁) (hcollateral : op.moveCollateral s₁ = .ok u' s') :
    op.Funded s s' := by
  have hpaid' := paid_moveCollateral hcollateral
  unfold moveDebt at hdebt
  split at hdebt
  · next hzero =>
    obtain ⟨-, rfl⟩ := pure_eq_ok.mp hdebt
    exact .collateral hzero hpaid'
  · next hne =>
    obtain ⟨_, s₂, hbalance, hdata⟩ := bind_eq_ok.mp hdebt
    obtain ⟨d, hd, rfl⟩ := modifyDynamicData_ok hdata
    exact .debt hne (paid_adjustBalance hbalance) hd hpaid'

theorem CallOrderUpdate.Funded.same {op : CallOrderUpdate} {s s' : Books} (h : op.Funded s s') :
    s'.callOrders = s.callOrders := by
  cases h with
  | collateral hdebt hpaid => rw [hpaid.rest]
  | debt hdebt hpaid hd hpaid' => rw [hpaid'.rest, hpaid.rest]

/-- The call orders change together with the supply. -/
theorem CallOrderUpdate.Funded.postings_debt {op : CallOrderUpdate} {s s₁ s' : Books} {v : ℕ → ℤ}
    {c : Index CallOrder} {t : Table ℕ AssetDynamicData} (hpaid : Paid s op.deltaDebt.vec s₁)
    (hposting : Posting L s₁ v { s₁ with callOrders := c, dynamicData := t })
    (hpaid' : Paid { s₁ with dynamicData := t } (-op.deltaCollateral.vec) s') :
    Postings L s (op.deltaDebt.vec + v + -op.deltaCollateral.vec) { s' with callOrders := c } :=
  ((Postings.paid hpaid).trans (.single hposting)).trans (.paid (hpaid'.withCalls c))

theorem Paid.withinMax {s s' : Books} {v : ℕ → ℤ} (h : Paid s v s') (k : ℕ) (x : ℤ) :
    s'.WithinMax k x ↔ s.WithinMax k x := by
  rw [h.rest]
  rfl

theorem Paid.fits {s s' : Books} {v : ℕ → ℤ} (h : Paid s v s') (hs : s.Fits) : s'.Fits := by
  rw [h.rest]
  exact ⟨hs.calls, hs.prices⟩

theorem CallOrderUpdate.openPosition_lookup {op : CallOrderUpdate} {b : BitassetData} {id : ℕ}
    {s s' : Books} (h : op.openPosition b s = .ok id s') :
    ∃ o, s'.callOrders.lookup id = some o ∧ 0 < o.debt := by
  unfold openPosition at h
  rw [get_bind] at h
  obtain ⟨-, h⟩ := assert_bind_eq_ok.mp h
  obtain ⟨hdebt, h⟩ := assert_bind_eq_ok.mp h
  obtain ⟨price, -, h⟩ := lift_bind_eq_ok.mp h
  rw [update_bind] at h
  obtain ⟨rfl, rfl⟩ := pure_eq_ok.mp h
  refine ⟨⟨op.fundingAccount, op.deltaCollateral.amount, op.deltaDebt.amount, price⟩, ?_, hdebt⟩
  change (s.callOrders.create _).lookup s.callOrders.next = _
  rw [Index.lookup_create, if_pos rfl]

theorem CallOrderUpdate.postings_openPosition {op : CallOrderUpdate} {b : BitassetData}
    {s s₃ s' : Books} {id : ℕ} (hs : Sound s)
    (hb : s.bitassets.lookup op.deltaDebt.assetId = some b) (hunsettled : b.hasSettlement = false)
    (hbacking : op.deltaCollateral.assetId = b.shortBackingAsset)
    (hcap : ¬ L.excess → ∀ supply, supplyOf s.dynamicData op.deltaDebt.assetId = some supply →
      s.WithinMax op.deltaDebt.assetId (supply + op.deltaDebt.amount))
    (hfunded : op.Funded s s₃) (h : op.openPosition b s₃ = .ok id s') : Postings L s 0 s' := by
  unfold openPosition at h
  rw [get_bind] at h
  obtain ⟨hcollateral, h⟩ := assert_bind_eq_ok.mp h
  obtain ⟨hdebt, h⟩ := assert_bind_eq_ok.mp h
  obtain ⟨price, hprice, h⟩ := lift_bind_eq_ok.mp h
  rw [update_bind] at h
  obtain ⟨-, rfl⟩ := pure_eq_ok.mp h
  obtain ⟨hrange, hbase, hquote⟩ := Price.callPrice_ok hdebt
    (lt_trans op.deltaDebt_fits.2 (by decide)) hcollateral
    (lt_trans op.deltaCollateral_fits.2 (by decide)) (hs.feeds _ b hb).current hprice
  cases hfunded with
  | collateral hzero _ => exact absurd hzero hdebt.ne'
  | @debt s₂ _ d _ hpaid hd hpaid' =>
    have hlends : s₂.Lends op.deltaDebt.assetId b.shortBackingAsset := by
      rw [hpaid.rest]
      exact ⟨b, hb, hunsettled, rfl⟩
    have hsupply : supplyOf s.dynamicData op.deltaDebt.assetId = some d.currentSupply := by
      rw [← hpaid.supply]
      exact supplyOf_of_lookup hd
    have hcalls : s₃.callOrders = s₂.callOrders := by
      rw [hpaid'.rest]
    have hopen := Posting.openCall (L := L) (s := s₂) (d := d)
      (o := ⟨op.fundingAccount, op.deltaCollateral.amount, op.deltaDebt.amount, price⟩)
      ⟨hdebt, hcollateral.le, hrange⟩ (by
        change s₂.Lends price.quote.assetId price.base.assetId
        rw [hquote, hbase, hbacking]
        exact hlends) (by
        change s₂.dynamicData.lookup price.quote.assetId = some d
        rw [hquote]
        exact hd) (by
        intro hL
        change s₂.WithinMax price.quote.assetId _
        rw [hquote, hpaid.withinMax]
        exact hcap hL _ hsupply)
    unfold CallOrder.getCollateral CallOrder.getDebt CallOrder.debtType at hopen
    simp only [hquote, hbase] at hopen
    rw [hcalls]
    refine (Funded.postings_debt hpaid hopen hpaid').cast ?_
    change op.deltaDebt.vec + (op.deltaCollateral.vec - op.deltaDebt.vec) +
      -op.deltaCollateral.vec = 0
    abel

theorem Books.findCall_ok {s : Books} {borrower debtType : ℕ} {e : ℕ × CallOrder}
    (h : s.findCall borrower debtType = some e) :
    s.callOrders.lookup e.1 = some e.2 ∧ e.2.debtType = debtType := by
  have hfound := List.find?_some h
  exact ⟨Index.lookup_of_mem_entries (List.mem_of_find?_eq_some h), (of_decide_eq_true hfound).2⟩

theorem Books.findCall_borrower {s : Books} {borrower debtType : ℕ} {e : ℕ × CallOrder}
    (h : s.findCall borrower debtType = some e) : e.2.borrower = borrower := by
  have hfound := List.find?_some h
  exact (of_decide_eq_true hfound).1

/-- A position with its new call price, if it has debt. -/
theorem CallOrderUpdate.priced_cases {o o' : CallOrder} {b : BitassetData} (h : priced o b = .ok o') :
    (0 < o.debt ∧ ∃ price, Price.callPrice o.getDebt o.getCollateral
      b.currentFeed.maintenanceCollateralRatio = .ok price ∧ o' = { o with callPrice := price }) ∨
      ¬ 0 < o.debt ∧ o' = o := by
  unfold priced at h
  split at h
  · next hdebt =>
    cases hprice : Price.callPrice o.getDebt o.getCollateral
        b.currentFeed.maintenanceCollateralRatio with
    | error e =>
      rw [hprice] at h
      cases h
    | ok price =>
      rw [hprice] at h
      cases h
      exact .inl ⟨hdebt, price, rfl, rfl⟩
  · next hdebt =>
    cases h
    exact .inr ⟨hdebt, rfl⟩

theorem CallOrderUpdate.priced_ok {o o' : CallOrder} {b : BitassetData} (h : priced o b = .ok o') :
    o'.collateral = o.collateral ∧ o'.debt = o.debt ∧ (0 < o.debt → ∃ price,
      Price.callPrice o.getDebt o.getCollateral b.currentFeed.maintenanceCollateralRatio = .ok price ∧
        o'.callPrice = price) := by
  rcases priced_cases h with ⟨-, price, hprice, rfl⟩ | ⟨hdebt, rfl⟩
  · exact ⟨rfl, rfl, fun _ => ⟨price, hprice, rfl⟩⟩
  · exact ⟨rfl, rfl, fun hpos => absurd hpos hdebt⟩

section Position

variable {op : CallOrderUpdate} {b : BitassetData} {s s₃ : Books} {id : ℕ} {o o' : CallOrder}

theorem CallOrderUpdate.postings_closePosition (hs : Sound s) (ho : s.callOrders.lookup id = some o)
    (htype : o.debtType = op.deltaDebt.assetId)
    (hbacking : o.callPrice.base.assetId = op.deltaCollateral.assetId)
    (hdebt : o.debt + op.deltaDebt.amount = 0) (hzero : o.collateral + op.deltaCollateral.amount = 0)
    (hfunded : op.Funded s s₃) :
    Postings L s 0 { s₃ with callOrders := s₃.callOrders.erase id } := by
  have hpos := (hs.calls id o ho).1.debt_pos
  have hdelta : -o.debt = op.deltaDebt.amount := by omega
  have hreturn : -o.collateral = op.deltaCollateral.amount := by omega
  have hvec : op.deltaDebt.vec = -o.getDebt.vec := by
    rw [← Asset.vec_neg]
    unfold CallOrder.getDebt Asset.neg
    rw [hdelta, htype]
  have hvec' : op.deltaCollateral.vec = -o.getCollateral.vec := by
    rw [← Asset.vec_neg]
    unfold CallOrder.getCollateral Asset.neg
    rw [hreturn, hbacking]
  rw [hfunded.same]
  cases hfunded with
  | collateral hnone _ => omega
  | @debt s₂ _ d _ hpaid hd hpaid' =>
    have ho₂ : s₂.callOrders.lookup id = some o := by
      rw [hpaid.rest]
      exact ho
    have hclose := Posting.closeCall (L := L) ho₂ (htype.symm ▸ hd)
    rw [htype, hdelta] at hclose
    have hcalls : s₂.callOrders = s.callOrders := by
      rw [hpaid.rest]
    rw [← hcalls]
    refine (Funded.postings_debt hpaid hclose hpaid').cast ?_
    rw [hvec, hvec']
    abel

theorem CallOrderUpdate.postings_modifyPosition (ho : s.callOrders.lookup id = some o)
    (htype : o.debtType = op.deltaDebt.assetId)
    (hbacking : o.callPrice.base.assetId = op.deltaCollateral.assetId) (hsound : o'.Sound)
    (htype' : o'.debtType = o.debtType)
    (hbacking' : o'.callPrice.base.assetId = o.callPrice.base.assetId)
    (hdebt : o'.debt = o.debt + op.deltaDebt.amount)
    (hcollateral : o'.collateral = o.collateral + op.deltaCollateral.amount)
    (hcap : ¬ L.excess → ∀ supply, supplyOf s.dynamicData op.deltaDebt.assetId = some supply →
      s.WithinMax op.deltaDebt.assetId (supply + op.deltaDebt.amount))
    (hfunded : op.Funded s s₃) :
    Postings L s 0 { s₃ with callOrders := s₃.callOrders.modify id fun _ => o' } := by
  have hdelta : o'.debt - o.debt = op.deltaDebt.amount := by omega
  have hmore : o'.collateral - o.collateral = op.deltaCollateral.amount := by omega
  have hvec' : Asset.vec ⟨o'.collateral - o.collateral, o.callPrice.base.assetId⟩ =
      op.deltaCollateral.vec := by
    rw [hmore, hbacking]
  rw [hfunded.same]
  cases hfunded with
  | collateral hnone hpaid =>
    have hset := Posting.setCollateral (L := L) ho hsound htype' hbacking' (by omega)
    refine ((Postings.single hset).trans (.paid (hpaid.withCalls _))).cast ?_
    rw [hvec']
    exact add_neg_cancel _
  | @debt s₂ _ d _ hpaid hd hpaid' =>
    have ho₂ : s₂.callOrders.lookup id = some o := by
      rw [hpaid.rest]
      exact ho
    have hsupply : supplyOf s.dynamicData op.deltaDebt.assetId = some d.currentSupply := by
      rw [← hpaid.supply]
      exact supplyOf_of_lookup hd
    have hchange := Posting.changeCall (L := L) ho₂ hsound htype' hbacking' (htype.symm ▸ hd) (by
      intro hL
      right
      rw [htype, hdelta, hpaid.withinMax]
      exact hcap hL _ hsupply)
    rw [hvec', htype, hdelta] at hchange
    have hcalls : s₂.callOrders = s.callOrders := by
      rw [hpaid.rest]
    rw [← hcalls]
    refine (Funded.postings_debt hpaid hchange hpaid').cast ?_
    change op.deltaDebt.vec + (op.deltaCollateral.vec - op.deltaDebt.vec) +
      -op.deltaCollateral.vec = 0
    abel

end Position

theorem CallOrderUpdate.postings_checkMargin {op : CallOrderUpdate} {b : BitassetData} {id : ℕ}
    {s s' : Books} {u : Unit} (hs : L.Keeps s) (h : op.checkMargin b id s = .ok u s') :
    Postings L s 0 s' := by
  unfold checkMargin at h
  obtain ⟨called, s₁, hcheck, h⟩ := bind_eq_ok.mp h
  rw [get_bind] at h
  have hchecked := postings_checkCallOrders hs hcheck
  split at h
  · obtain ⟨-, rfl⟩ := assert_eq_ok.mp h
    exact hchecked
  · obtain ⟨_, -, h⟩ := require_bind_eq_ok.mp h
    obtain ⟨-, rfl⟩ := assert_eq_ok.mp h
    exact hchecked

/-- What follows the change of a position that is still open. -/
theorem CallOrderUpdate.closeOrCheck_ok {op : CallOrderUpdate} {b : BitassetData} {id : ℕ}
    {o : CallOrder} {s s' : Books} {u : Unit} (ho : s.callOrders.lookup id = some o)
    (h : op.closeOrCheck b id s = .ok u s') :
    (o.debt = 0 ∧ o.collateral = 0 ∧ s' = { s with callOrders := s.callOrders.erase id }) ∨
      (0 < o.debt ∧ 0 < o.collateral ∧ (L.Keeps s → Postings L s 0 s')) := by
  unfold closeOrCheck at h
  rw [get_bind] at h
  obtain ⟨o', ho', h⟩ := require_bind_eq_ok.mp h
  rw [ho] at ho'
  cases ho'
  split at h
  · next hzero =>
    obtain ⟨hcollateral, h⟩ := assert_bind_eq_ok.mp h
    exact .inl ⟨hzero, hcollateral, update_eq_ok.mp h⟩
  · obtain ⟨⟨hcollateral, hdebt⟩, h⟩ := assert_bind_eq_ok.mp h
    refine .inr ⟨hdebt, hcollateral, fun hs => ?_⟩
    split at h
    · obtain ⟨-, rfl⟩ := pure_eq_ok.mp h
      exact .refl s
    · exact postings_checkMargin hs h

theorem CallOrderUpdate.postings_doApply {op : CallOrderUpdate} {b : BitassetData} {s s' : Books}
    {u : Unit} (hs : L.Keeps s) (hfits : s.Fits)
    (hb : s.bitassets.lookup op.deltaDebt.assetId = some b) (hunsettled : b.hasSettlement = false)
    (hbacking : op.deltaCollateral.assetId = b.shortBackingAsset)
    (hcap : ¬ L.excess → ∀ supply, supplyOf s.dynamicData op.deltaDebt.assetId = some supply →
      s.WithinMax op.deltaDebt.assetId (supply + op.deltaDebt.amount))
    (h : op.doApply b s = .ok u s') : Postings L s 0 s' := by
  unfold doApply at h
  obtain ⟨_, s₁, hdebt, h⟩ := bind_eq_ok.mp h
  obtain ⟨_, s₃, hcollateral, h⟩ := bind_eq_ok.mp h
  rw [get_bind] at h
  obtain ⟨id, s₄, hposition, h⟩ := bind_eq_ok.mp h
  have hfunded := funded hdebt hcollateral
  cases hfind : s₃.findCall op.fundingAccount op.deltaDebt.assetId with
  | none =>
    rw [hfind] at hposition
    change op.openPosition b s₃ = .ok id s₄ at hposition
    have hopen := postings_openPosition (L := L) hs.sound hb hunsettled hbacking hcap hfunded hposition
    obtain ⟨o, ho, hpos⟩ := openPosition_lookup hposition
    rcases closeOrCheck_ok (L := L) ho h with ⟨hzero, -, -⟩ | ⟨-, -, hcheck⟩
    · exact absurd hzero hpos.ne'
    · exact (hopen.trans (hcheck (hopen.keeps hs))).cast (add_zero 0)
  | some e =>
    obtain ⟨i, o⟩ := e
    rw [hfind] at hposition
    obtain ⟨ho, htype⟩ := Books.findCall_ok hfind
    rw [hfunded.same] at ho
    change s.callOrders.lookup i = some o at ho
    change o.debtType = _ at htype
    obtain ⟨o', hpriced, hposition⟩ := lift_bind_eq_ok.mp hposition
    rw [update_bind] at hposition
    obtain ⟨rfl, rfl⟩ := pure_eq_ok.mp hposition
    obtain ⟨hcollateral', hdebt', hprice⟩ := priced_ok hpriced
    -- the position backs the asset with the collateral that the operation changes
    have hlends : o.callPrice.base.assetId = op.deltaCollateral.assetId := by
      obtain ⟨b', hb', -, hbacking'⟩ := (hs.sound.calls i o ho).2
      rw [htype, hb] at hb'
      cases hb'
      rw [hbacking, hbacking']
    have ho₄ : (s₃.callOrders.modify i fun _ => o').lookup i = some o' := by
      rw [hfunded.same, Index.lookup_modify, if_pos rfl, ho]
      rfl
    rcases closeOrCheck_ok (L := L) ho₄ h with ⟨hzero, hnone, rfl⟩ | ⟨hpos, hpos', hcheck⟩
    · have hclose := postings_closePosition (L := L) hs.sound ho htype hlends
        (hdebt'.symm.trans hzero) (hcollateral'.symm.trans hnone) hfunded
      rw [Index.erase_modify]
      exact hclose
    · have hchanged : 0 < (op.change o).debt := hdebt' ▸ hpos
      obtain ⟨price, hprice, hprice'⟩ := hprice hchanged
      obtain ⟨hold, hold'⟩ := hfits.calls i o ho
      have hdelta := op.deltaDebt_fits.2
      have hdelta' := op.deltaCollateral_fits.2
      have hlt : (op.change o).debt < 2 ^ 64 := by
        change o.debt + op.deltaDebt.amount < 2 ^ 64
        omega
      have hlt' : (op.change o).collateral < 2 ^ 64 := by
        change o.collateral + op.deltaCollateral.amount < 2 ^ 64
        omega
      have hchanged' : 0 < (op.change o).collateral := hcollateral' ▸ hpos'
      obtain ⟨hrange, hbase, hquote⟩ := Price.callPrice_ok hchanged hlt hchanged' hlt'
        (hs.sound.feeds _ b hb).current hprice
      have hsound : o'.Sound := ⟨hpos, hpos'.le, hprice'.symm ▸ hrange⟩
      have hmodify := postings_modifyPosition ho htype hlends hsound
        (by
          unfold CallOrder.debtType
          rw [hprice', hquote]
          rfl)
        (by
          rw [hprice', hbase]
          rfl) hdebt' hcollateral' hcap hfunded
      exact (hmodify.trans (hcheck (hmodify.keeps hs))).cast (add_zero 0)

theorem postings_callOrderUpdate {S : Settings} {op : CallOrderUpdate} {s s' : Books} {u : Unit}
    (hs : L.Keeps s) (hfits : s.Fits)
    (hcap : ¬ L.excess → ∀ supply, supplyOf s.dynamicData op.deltaDebt.assetId = some supply →
      s.WithinMax op.deltaDebt.assetId (supply + op.deltaDebt.amount))
    (h : op.evaluator.run S skip s = .ok u s') : Postings L s 0 s' := by
  refine postings_run hs rfl rfl (fun hread => (CallOrderUpdate.doEvaluate_ok hread).1) ?_ h
  intro f b v s₁ s₂ hevaluate hpaid hs₁ happly
  obtain ⟨-, hb, hunsettled, hbacking⟩ := CallOrderUpdate.doEvaluate_ok hevaluate
  refine CallOrderUpdate.postings_doApply hs₁ (hpaid.fits hfits) ?_ hunsettled hbacking ?_ happly
  · rw [hpaid.rest]
    exact hb
  · intro hL supply hsupply
    rw [hpaid.supply] at hsupply
    rw [hpaid.withinMax]
    exact hcap hL supply hsupply

end FinChain.Ledger
