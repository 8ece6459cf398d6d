import FinChain.Ledger.Market
import FinChain.Lib.Notes

/-!
# The fills of a run

`fill_order` pushes a `fill_order_operation` for each order that it fills, and so what a new order sets
off can be read from the history of these operations. Here the functions of the market that fill limit
orders and call orders are written down again, with notes of the fills and of the rounds that they belong
to. Nothing else is changed: without the notes, they are the functions they were (`erases_applyOrder`).
-/

namespace FinChain.Ledger.History

open Exec

/-- What is noted: the `fill_order_operation`s of limit orders and of call orders, and, at their
beginning, the matches of a new order and an old one and the margin calls, with the orders as they are
then. -/
inductive Note
  | limitFill (id : ℕ) (pays receives : Asset)
  | callFill (id : ℕ) (pays receives : Asset)
  | matching (new old : LimitOrder)
  | marginCall (call : CallOrder) (limit : LimitOrder)

/-- Functions on the objects that take notes. -/
abbrev MarketM := EStateM LedgerError (Recorded Books Note)

/-! ### The functions with notes -/

/-- `fill_order` of a limit order. -/
def fillLimitOrder (id : ℕ) (pays receives : Asset) (cullIfSmall : Bool) : MarketM Bool := do
  note (.limitFill id pays receives)
  silent (Ledger.fillLimitOrder id pays receives cullIfSmall)

/-- `fill_order` of a call order. -/
def fillCallOrder (id : ℕ) (pays receives : Asset) : MarketM Bool := do
  note (.callFill id pays receives)
  silent (Ledger.fillCallOrder id pays receives)

/-- `match` of two limit orders. -/
def matchLimitOrders (usdId coreId : ℕ) (matchPrice : Price) : MarketM (Bool × Bool) := do
  let s ← silent get
  let usd ← silent (require .danglingIterator (s.limitOrders.lookup usdId))
  let coreOrder ← silent (require .danglingIterator (s.limitOrders.lookup coreId))
  note (.matching usd coreOrder)
  let (usdReceives, usdPays) ←
    silent (lift (exchanged usd.amountForSale coreOrder.amountForSale matchPrice))
  let usdFilled ← fillLimitOrder usdId usdPays usdReceives false
  let coreFilled ← fillLimitOrder coreId usdReceives usdPays true
  return (usdFilled, coreFilled)

/-- The loop of `globally_settle_asset` over the call orders. -/
def settleCallOrders (settlementPrice : Price) : List ℕ → Asset → MarketM Asset
  | [], gathered => return gathered
  | id :: ids, gathered => do
    let s ← silent get
    let order ← silent (require .danglingIterator (s.callOrders.lookup id))
    let pays ← silent (lift (settlementPays order settlementPrice))
    let gathered ← silent (lift (gathered.add pays))
    let filled ← fillCallOrder id pays order.getDebt
    silent (assert .assertion (filled = true))
    settleCallOrders settlementPrice ids gathered

/-- `globally_settle_asset`. -/
def globallySettleAsset (mia : ℕ) (settlementPrice : Price) : MarketM Unit := do
  let s ← silent get
  let bitasset ← silent (require .notFound (s.bitassets.lookup mia))
  silent (assert .assertion (bitasset.hasSettlement = false))
  let _ ← silent (require .notFound (s.assets.lookup bitasset.shortBackingAsset))
  let miaDyn ← silent (require .notFound (s.dynamicData.lookup mia))
  let calls ← silent (lift (s.callsOf bitasset.shortBackingAsset mia))
  let gathered ← settleCallOrders settlementPrice (calls.map Prod.fst) ⟨0, bitasset.shortBackingAsset⟩
  let price ← silent (lift (Asset.div ⟨miaDyn.currentSupply, mia⟩ gathered))
  silent (update fun s =>
    { s with
      bitassets := s.bitassets.modify mia fun b =>
        { b with settlementPrice := price, settlementFund := gathered.amount } })
  silent (modifyDynamicData mia fun d => { d with currentSupply := miaDyn.currentSupply })

/-- A black swan settles the asset, if it is allowed. -/
def settleAtSwanPrice (mia : ℕ) (enableBlackSwan : Bool) : Option Price → MarketM Bool
  | none => return false
  | some price => do
    silent (assert .assertion (enableBlackSwan = true))
    globallySettleAsset mia price
    return true

/-- `check_for_blackswan`. -/
def checkForBlackswan (mia : ℕ) (enableBlackSwan : Bool) : MarketM Bool := do
  let s ← silent get
  match s.bitassets.lookup mia with
  | none => return false
  | some bitasset =>
    if bitasset.hasSettlement then return true
    else if bitasset.currentFeed.settlementPrice.isNull then return false
    else do
      let swan ← silent (lift (s.swanPrice mia bitasset))
      settleAtSwanPrice mia enableBlackSwan swan

/-- The call order buys from the limit order. -/
def executeMarginCall (call limit : ℕ) (usdToBuy usdForSale : Asset) (matchPrice : Price)
    (filledLimit : Bool) : MarketM MarginCall := do
  let (receives, pays, callFilled, limitFilled) ←
    silent (lift (marginCallAmounts usdToBuy usdForSale matchPrice))
  let _ ← fillCallOrder call pays receives
  let _ ← fillLimitOrder limit receives pays true
  return .called callFilled (filledLimit || limitFilled)

/-- A call order that cannot pay at the price of the limit order is a black swan. -/
def callOrSettle (mia : ℕ) (bitasset : BitassetData) (enableBlackSwan swan : Bool) (call limit : ℕ)
    (callOrder : CallOrder) (limitOrder : LimitOrder) (filledLimit : Bool) : MarketM MarginCall :=
  if swan then do
    silent (assert .assertion (enableBlackSwan = true))
    globallySettleAsset mia bitasset.currentFeed.settlementPrice
    return .stop true
  else do
    note (.marginCall callOrder limitOrder)
    executeMarginCall call limit callOrder.getDebt limitOrder.amountForSale limitOrder.sellPrice
      filledLimit

/-- The body of the loop of `check_call_orders`. -/
def marginCallRound (mia : ℕ) (bitasset : BitassetData) (enableBlackSwan : Bool) (call limit : ℕ)
    (filledLimit marginCalled : Bool) : MarketM MarginCall := do
  let s ← silent get
  let limitOrder ← silent (require .danglingIterator (s.limitOrders.lookup limit))
  let callOrder ← silent (require .danglingIterator (s.callOrders.lookup call))
  silent (lift limitOrder.sellPrice.validate)
  if (bitasset.currentFeed.settlementPrice.gt callOrder.callPrice.inv &&
      decide (hardfork436Time < s.headTime)) || limitOrder.sellPrice.gt callOrder.callPrice.inv then
    return .stop marginCalled
  else do
    let cost ← silent (lift (callOrder.getDebt.mul limitOrder.sellPrice))
    let swan ← silent (lift (cost.gt callOrder.getCollateral))
    callOrSettle mia bitasset enableBlackSwan swan call limit callOrder limitOrder filledLimit

/-- The loop of `check_call_orders`. -/
def marginCallLoop (mia : ℕ) (bitasset : BitassetData) (enableBlackSwan : Bool) :
    ℕ → List ℕ → List ℕ → (filledLimit marginCalled : Bool) → MarketM Bool
  | 0, _, _, _, marginCalled => do
    let _ ← checkForBlackswan mia enableBlackSwan
    return marginCalled
  | fuel + 1, calls, limits, filledLimit, marginCalled => do
    let settled ← checkForBlackswan mia enableBlackSwan
    match settled, calls, limits with
    | true, _, _ => return marginCalled
    | false, [], _ => return marginCalled
    | false, _ :: _, [] => return marginCalled
    | false, call :: calls, limit :: limits => do
      let round ← marginCallRound mia bitasset enableBlackSwan call limit filledLimit marginCalled
      match round with
      | .stop result => return result
      | .called filledCall filledLimit =>
        marginCallLoop mia bitasset enableBlackSwan fuel (if filledCall then calls else call :: calls)
          (if filledLimit then limits else limit :: limits) filledLimit true

/-- The loop of `check_call_orders`, which starts only if there is a limit order. -/
def callMarginsOf (mia : ℕ) (bitasset : BitassetData) (enableBlackSwan : Bool)
    (calls limits : List ℕ) : MarketM Bool :=
  if limits = [] then return false
  else
    marginCallLoop mia bitasset enableBlackSwan (calls.length + limits.length) calls limits false
      false

/-- `check_call_orders` of a bitasset that is not settled. -/
def callMargins (mia : ℕ) (bitasset : BitassetData) (enableBlackSwan : Bool) : MarketM Bool :=
  if bitasset.isPredictionMarket || bitasset.currentFeed.settlementPrice.isNull then return false
  else do
    let s ← silent get
    let (calls, limits) ← silent (lift (s.marginCalls mia bitasset))
    callMarginsOf mia bitasset enableBlackSwan (calls.map Prod.fst) (limits.map Prod.fst)

/-- `check_call_orders`. -/
def checkCallOrders (mia : ℕ) (enableBlackSwan : Bool) : MarketM Bool := do
  let s ← silent get
  match s.bitassets.lookup mia with
  | none => return false
  | some bitasset => do
    let settled ← checkForBlackswan mia enableBlackSwan
    if settled then return false else callMargins mia bitasset enableBlackSwan

/-- The loop of `apply_order` over the orders that may be matched. -/
def matchOrders (orderId : ℕ) : List ℕ → MarketM Unit
  | [] => pure ()
  | id :: ids => do
    let s ← silent get
    let old ← silent (require .danglingIterator (s.limitOrders.lookup id))
    let (newFilled, oldFilled) ← matchLimitOrders orderId id old.sellPrice
    if newFilled = false ∧ oldFilled = true then matchOrders orderId ids else pure ()

/-- The new order is matched with those of the other side. -/
def matchNewOrder (orderId : ℕ) (sellPrice : Price) : MarketM Unit := do
  let s ← silent get
  let highest ← silent (lift (Price.max sellPrice.quote.assetId sellPrice.base.assetId))
  matchOrders orderId ((s.limitsBetween highest sellPrice.inv).map Prod.fst)

/-- `apply_order` after the first margin calls. -/
def applyUncalledOrder (orderId : ℕ) (order : LimitOrder) (receiveAsset : ℕ)
    (calledSome allowBlackSwan : Bool) : MarketM Bool := do
  let s ← silent get
  if calledSome = true ∧ s.limitOrders.lookup orderId = none then return true
  else do
    matchNewOrder orderId order.sellPrice
    let _ ← checkCallOrders order.sellPrice.base.assetId allowBlackSwan
    let _ ← checkCallOrders receiveAsset allowBlackSwan
    silent (cullNewOrder orderId)

/-- `apply_order`. -/
def applyOrder (orderId : ℕ) (allowBlackSwan : Bool) : MarketM Bool := do
  let s ← silent get
  let order ← silent (require .danglingIterator (s.limitOrders.lookup orderId))
  let receives ← silent (lift order.amountToReceive)
  let _ ← silent (require .notFound (s.assets.lookup order.sellPrice.base.assetId))
  let _ ← silent (require .notFound (s.assets.lookup receives.assetId))
  let calledSell ← checkCallOrders order.sellPrice.base.assetId allowBlackSwan
  let calledReceive ← checkCallOrders receives.assetId allowBlackSwan
  applyUncalledOrder orderId order receives.assetId (calledSell || calledReceive) allowBlackSwan

/-! ### Without the notes -/

theorem erases_fillLimitOrder (id : ℕ) (pays receives : Asset) (cull : Bool) :
    Erases (fillLimitOrder id pays receives cull) (Ledger.fillLimitOrder id pays receives cull) :=
  erases_note_bind (erases_silent _)

theorem erases_fillCallOrder (id : ℕ) (pays receives : Asset) :
    Erases (fillCallOrder id pays receives) (Ledger.fillCallOrder id pays receives) :=
  erases_note_bind (erases_silent _)

theorem erases_matchLimitOrders (usdId coreId : ℕ) (price : Price) :
    Erases (matchLimitOrders usdId coreId price) (Ledger.matchLimitOrders usdId coreId price) := by
  refine erases_silent_bind fun s => erases_silent_bind fun usd => erases_silent_bind fun old => ?_
  refine erases_note_bind (erases_silent_bind fun ⟨receives, pays⟩ => ?_)
  refine (erases_fillLimitOrder usdId pays receives false).bind fun usdFilled => ?_
  exact (erases_fillLimitOrder coreId receives pays true).bind fun coreFilled => erases_pure _

theorem erases_settleCallOrders (price : Price) (ids : List ℕ) (gathered : Asset) :
    Erases (settleCallOrders price ids gathered) (Ledger.settleCallOrders price ids gathered) := by
  induction ids generalizing gathered with
  | nil => exact erases_pure _
  | cons id ids ih =>
    refine erases_silent_bind fun s => erases_silent_bind fun order => erases_silent_bind fun pays => ?_
    refine erases_silent_bind fun gathered => (erases_fillCallOrder id pays _).bind fun filled => ?_
    exact erases_silent_bind fun _ => ih gathered

theorem erases_globallySettleAsset (mia : ℕ) (price : Price) :
    Erases (globallySettleAsset mia price) (Ledger.globallySettleAsset mia price) := by
  refine erases_silent_bind fun s => erases_silent_bind fun bitasset => erases_silent_bind fun _ => ?_
  refine erases_silent_bind fun _ => erases_silent_bind fun d => erases_silent_bind fun calls => ?_
  refine (erases_settleCallOrders price _ _).bind fun gathered => erases_silent_bind fun price => ?_
  exact erases_silent_bind fun _ => erases_silent _

theorem erases_settleAtSwanPrice (mia : ℕ) (enable : Bool) (swan : Option Price) :
    Erases (settleAtSwanPrice mia enable swan) (Ledger.settleAtSwanPrice mia enable swan) := by
  cases swan with
  | none => exact erases_pure _
  | some price =>
    refine erases_silent_bind fun _ => ?_
    exact (erases_globallySettleAsset mia price).bind fun _ => erases_pure _

theorem erases_checkForBlackswan (mia : ℕ) (enable : Bool) :
    Erases (checkForBlackswan mia enable) (Ledger.checkForBlackswan mia enable) := by
  refine erases_silent_bind fun s => ?_
  cases s.bitassets.lookup mia with
  | none => exact erases_pure _
  | some bitasset =>
    refine erases_ite (erases_pure _) (erases_ite (erases_pure _) ?_)
    exact erases_silent_bind fun swan => erases_settleAtSwanPrice mia enable swan

theorem erases_executeMarginCall (call limit : ℕ) (usdToBuy usdForSale : Asset) (price : Price)
    (filledLimit : Bool) :
    Erases (executeMarginCall call limit usdToBuy usdForSale price filledLimit)
      (Ledger.executeMarginCall call limit usdToBuy usdForSale price filledLimit) := by
  refine erases_silent_bind fun ⟨receives, pays, callFilled, limitFilled⟩ => ?_
  refine (erases_fillCallOrder call pays receives).bind fun _ => ?_
  exact (erases_fillLimitOrder limit receives pays true).bind fun _ => erases_pure _

theorem erases_callOrSettle (mia : ℕ) (bitasset : BitassetData) (enable swan : Bool) (call limit : ℕ)
    (callOrder : CallOrder) (limitOrder : LimitOrder) (filledLimit : Bool) :
    Erases (callOrSettle mia bitasset enable swan call limit callOrder limitOrder filledLimit)
      (Ledger.callOrSettle mia bitasset enable swan call limit callOrder.getDebt
        limitOrder.amountForSale limitOrder.sellPrice filledLimit) := by
  refine erases_ite ?_ (erases_note_bind (erases_executeMarginCall _ _ _ _ _ _))
  refine erases_silent_bind fun _ => ?_
  exact (erases_globallySettleAsset mia _).bind fun _ => erases_pure _

theorem erases_marginCallRound (mia : ℕ) (bitasset : BitassetData) (enable : Bool) (call limit : ℕ)
    (filledLimit called : Bool) :
    Erases (marginCallRound mia bitasset enable call limit filledLimit called)
      (Ledger.marginCallRound mia bitasset enable call limit filledLimit called) := by
  refine erases_silent_bind fun s => erases_silent_bind fun limitOrder => ?_
  refine erases_silent_bind fun callOrder => erases_silent_bind fun _ => ?_
  refine erases_ite (erases_pure _) (erases_silent_bind fun cost => erases_silent_bind fun swan => ?_)
  exact erases_callOrSettle _ _ _ _ _ _ _ _ _

theorem erases_marginCallLoop (mia : ℕ) (bitasset : BitassetData) (enable : Bool) (fuel : ℕ)
    (calls limits : List ℕ) (filledLimit called : Bool) :
    Erases (marginCallLoop mia bitasset enable fuel calls limits filledLimit called)
      (Ledger.marginCallLoop mia bitasset enable fuel calls limits filledLimit called) := by
  induction fuel generalizing calls limits filledLimit called with
  | zero => exact (erases_checkForBlackswan mia enable).bind fun _ => erases_pure _
  | succ fuel ih =>
    refine (erases_checkForBlackswan mia enable).bind fun settled => ?_
    match settled, calls, limits with
    | true, _, _ => exact erases_pure _
    | false, [], _ => exact erases_pure _
    | false, _ :: _, [] => exact erases_pure _
    | false, call :: calls, limit :: limits =>
      refine (erases_marginCallRound mia bitasset enable call limit filledLimit called).bind fun round => ?_
      cases round with
      | stop result => exact erases_pure _
      | called filledCall filledLimit => exact ih _ _ _ _

theorem erases_callMargins (mia : ℕ) (bitasset : BitassetData) (enable : Bool) :
    Erases (callMargins mia bitasset enable) (Ledger.callMargins mia bitasset enable) := by
  refine erases_ite (erases_pure _) (erases_silent_bind fun s => erases_silent_bind fun ⟨calls, limits⟩ => ?_)
  exact erases_ite (erases_pure _) (erases_marginCallLoop _ _ _ _ _ _ _ _)

/-- `check_call_orders` without the notes. -/
theorem erases_checkCallOrders (mia : ℕ) (enable : Bool) :
    Erases (checkCallOrders mia enable) (Ledger.checkCallOrders mia enable) := by
  refine erases_silent_bind fun s => ?_
  cases s.bitassets.lookup mia with
  | none => exact erases_pure _
  | some bitasset =>
    refine (erases_checkForBlackswan mia enable).bind fun settled => ?_
    exact erases_ite (erases_pure _) (erases_callMargins mia bitasset enable)

theorem erases_matchOrders (orderId : ℕ) (ids : List ℕ) :
    Erases (matchOrders orderId ids) (Ledger.matchOrders orderId ids) := by
  induction ids with
  | nil => exact erases_pure _
  | cons id ids ih =>
    refine erases_silent_bind fun s => erases_silent_bind fun old => ?_
    refine (erases_matchLimitOrders orderId id _).bind fun ⟨newFilled, oldFilled⟩ => ?_
    exact erases_ite ih (erases_pure _)

theorem erases_matchNewOrder (orderId : ℕ) (price : Price) :
    Erases (matchNewOrder orderId price) (Ledger.matchNewOrder orderId price) :=
  erases_silent_bind fun _ => erases_silent_bind fun _ => erases_matchOrders _ _

theorem erases_applyUncalledOrder (orderId : ℕ) (order : LimitOrder) (receiveAsset : ℕ)
    (called allow : Bool) :
    Erases (applyUncalledOrder orderId order receiveAsset called allow)
      (Ledger.applyUncalledOrder orderId order receiveAsset called allow) := by
  refine erases_silent_bind fun s => erases_ite (erases_pure _) ?_
  refine (erases_matchNewOrder orderId _).bind fun _ => ?_
  refine (erases_checkCallOrders _ allow).bind fun _ => ?_
  exact (erases_checkCallOrders receiveAsset allow).bind fun _ => erases_silent _

/-- **`apply_order`** without the notes. -/
theorem erases_applyOrder (orderId : ℕ) (allow : Bool) :
    Erases (applyOrder orderId allow) (Ledger.applyOrder orderId allow) := by
  refine erases_silent_bind fun s => erases_silent_bind fun order => erases_silent_bind fun receives => ?_
  refine erases_silent_bind fun _ => erases_silent_bind fun _ => ?_
  refine (erases_checkCallOrders _ allow).bind fun _ => ?_
  exact (erases_checkCallOrders _ allow).bind fun _ => erases_applyUncalledOrder _ _ _ _ _

end FinChain.Ledger.History
