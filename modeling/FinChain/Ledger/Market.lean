import FinChain.Ledger.State
import Mathlib.Data.List.Sort

/-!
# Filling and matching orders

The functions of `database` that fill orders. An order is filled from one side only: `fill_order`
takes `pays` out of the order and gives `receives` to its owner, and whoever calls it has to fill
the other side with the amounts exchanged. For a call order, what it receives is debt that is paid
back, and leaves the supply.

Orders are kept in indices by price. The loops over an index go on while they remove orders; a loop
is given the list of the orders it will come to, in the order of the index, and looks each of them
up when it gets there. There is one place where the code may go on with an order that it has just
removed: `check_call_orders` stays at a limit order that it did not fill, and that order may have
been culled (`danglingIterator`).
-/

namespace FinChain.Ledger

open Exec

/-- `HARDFORK_436_TIME`. -/
def hardfork436Time : ℕ := 1450288800

/-- `HARDFORK_555_TIME`. -/
def hardfork555Time : ℕ := 1456250400

/-! ### Indices -/

/-- The order of `limit_order_index` by price: `std::greater<price>`, then the id. -/
def limitBefore (a b : ℕ × LimitOrder) : Prop :=
  a.2.sellPrice.gt b.2.sellPrice = true ∨
    b.2.sellPrice.gt a.2.sellPrice = false ∧ a.1 ≤ b.1

instance : DecidableRel limitBefore := fun _ _ => inferInstanceAs (Decidable (_ ∨ _))

/-- The limit orders from `lower_bound( highest )` to `upper_bound( lowest )`. -/
def Books.limitsBetween (s : Books) (highest lowest : Price) : List (ℕ × LimitOrder) :=
  (s.limitOrders.entries.filter fun e =>
    !e.2.sellPrice.gt highest && !lowest.gt e.2.sellPrice).insertionSort limitBefore

/-- The order of `call_order_index` by a price: `std::less<price>`, then the id. -/
def callBefore (price : CallOrder → Price) (a b : ℕ × CallOrder) : Prop :=
  (price a.2).lt (price b.2) = true ∨ (price b.2).lt (price a.2) = false ∧ a.1 ≤ b.1

instance (price : CallOrder → Price) : DecidableRel (callBefore price) :=
  fun _ _ => inferInstanceAs (Decidable (_ ∨ _))

/-- The call orders by call price, from `lower_bound( lowest )` to `upper_bound( highest )`. -/
def Books.callsBetween (s : Books) (lowest highest : Price) : List (ℕ × CallOrder) :=
  (s.callOrders.entries.filter fun e =>
    !e.2.callPrice.lt lowest && !highest.lt e.2.callPrice).insertionSort
      (callBefore CallOrder.callPrice)

/-- The call orders of one asset by call price. -/
def Books.callsOf (s : Books) (backing mia : ℕ) : Except LedgerError (List (ℕ × CallOrder)) := do
  let lowest ← Price.min backing mia
  let highest ← Price.max backing mia
  return s.callsBetween lowest highest

/-- The first call order by collateralization that is not below a price. -/
def Books.leastCollateralized (s : Books) (lowest : Price) : Option (ℕ × CallOrder) :=
  ((s.callOrders.entries.filter fun e => !e.2.collateralization.lt lowest).insertionSort
    (callBefore CallOrder.collateralization)).head?

/-! ### Market fees -/

/-- `calculate_market_fee`. -/
def calculateMarketFee (tradeAsset : AssetObject) (tradeAmount : Asset) : Except LedgerError ℤ :=
  let fee := uint128 (uint128 tradeAmount.amount * tradeAsset.options.marketFeePercent) /
    hundredPercent
  if tradeAsset.chargesMarketFees = false ∨ tradeAsset.options.marketFeePercent = 0 then .ok 0
  -- `to_uint64` of a number that does not fit throws
  else if fee < 2 ^ 64 then .ok (min fee tradeAsset.options.maxMarketFee)
  else .error .assertion

/-- The fee is collected, if there is any. -/
def collectFee (assetId : ℕ) (fee : ℤ) : LedgerM Unit :=
  if 0 < fee then
    modifyDynamicData assetId fun d => { d with accumulatedFees := d.accumulatedFees + fee }
  else pure ()

/-- `pay_market_fees`. -/
def payMarketFees (receives : Asset) : LedgerM ℤ := do
  let s ← get
  let a ← require .notFound (s.assets.lookup receives.assetId)
  let fee ← lift (calculateMarketFee a receives)
  collectFee receives.assetId fee
  return fee

/-- What is left of an amount. -/
def Asset.less (a : Asset) (x : ℤ) : Asset := ⟨a.amount - x, a.assetId⟩

/-! ### Limit orders -/

/-- Take an amount off `total_core_in_orders`, if it is in core. -/
def AccountStatistics.outOfOrders (a : Asset) (x : AccountStatistics) : AccountStatistics :=
  if a.assetId = core then { x with totalCoreInOrders := x.totalCoreInOrders - a.amount } else x

/-- `pay_order`. -/
def payOrder (receiver : ℕ) (receives pays : Asset) : LedgerM Unit := do
  modifyStatistics receiver (AccountStatistics.outOfOrders pays)
  adjustBalance receiver receives

/-- `cancel_order` of a limit order. -/
def cancelLimitOrder (id : ℕ) : LedgerM Unit := do
  let s ← get
  let order ← require .danglingIterator (s.limitOrders.lookup id)
  modifyStatistics order.seller (AccountStatistics.outOfOrders order.amountForSale)
  adjustBalance order.seller order.amountForSale
  adjustBalance order.seller ⟨order.deferredFee, core⟩
  update fun s => { s with limitOrders := s.limitOrders.erase id }

/-- `maybe_cull_small_order`. -/
def maybeCullSmallOrder (id : ℕ) : LedgerM Bool := do
  let s ← get
  let order ← require .danglingIterator (s.limitOrders.lookup id)
  let receives ← lift order.amountToReceive
  if receives.amount = 0 then do
    cancelLimitOrder id
    return true
  else return false

/-- A deferred fee becomes due when the order is filled for the first time. -/
def payDeferredFee (order : LimitOrder) : LedgerM Unit :=
  if 0 < order.deferredFee then payFee order.seller order.deferredFee else pure ()

/-- The end of `fill_order`: the order is gone, or what is left of it may be culled. -/
def reduceLimitOrder (id : ℕ) (order : LimitOrder) (pays : Asset) (cullIfSmall : Bool) :
    LedgerM Bool :=
  if pays = order.amountForSale then do
    update fun s => { s with limitOrders := s.limitOrders.erase id }
    return true
  else do
    update fun s =>
      { s with
        limitOrders := s.limitOrders.modify id fun o =>
          { o with forSale := o.forSale - pays.amount, deferredFee := 0 } }
    if cullIfSmall then maybeCullSmallOrder id else return false

/-- `fill_order` of a limit order. -/
def fillLimitOrder (id : ℕ) (pays receives : Asset) (cullIfSmall : Bool) : LedgerM Bool := do
  let s ← get
  let order ← require .danglingIterator (s.limitOrders.lookup id)
  assert .assertion (order.amountForSale.assetId = pays.assetId)
  assert .assertion (pays.assetId ≠ receives.assetId)
  let issuerFees ← payMarketFees receives
  payOrder order.seller (receives.less issuerFees) pays
  payDeferredFee order
  reduceLimitOrder id order pays (cullIfSmall || decide (s.headTime < hardfork555Time))

/-! ### Call orders and settlements -/

/-- The collateral of a call order without debt is free. -/
def CallOrder.freed (o : CallOrder) : Option Asset :=
  if o.debt = 0 then some o.getCollateral else none

/-- What filling a call order does to `total_core_in_orders` of the borrower. The collateral that
was freed is taken off in whichever asset it is. -/
def AccountStatistics.release (freed : Option Asset) (pays : Asset) (x : AccountStatistics) :
    AccountStatistics :=
  AccountStatistics.outOfOrders pays
    { x with totalCoreInOrders := x.totalCoreInOrders - max 0 ((freed.map Asset.amount).getD 0) }

/-- The collateral that was freed returns to the borrower. -/
def releaseCollateral (borrower : ℕ) (pays : Asset) : Option Asset → LedgerM Unit
  | some freed => do
    adjustBalance borrower freed
    modifyStatistics borrower (AccountStatistics.release (some freed) pays)
  | none =>
    if pays.assetId = core then modifyStatistics borrower (AccountStatistics.release none pays)
    else pure ()

/-- The call order is removed when its collateral is free. -/
def removeCallOrder (id : ℕ) : Option Asset → LedgerM Bool
  | some _ => do
    update fun s => { s with callOrders := s.callOrders.erase id }
    return true
  | none => return false

/-- `fill_order` of a call order. -/
def fillCallOrder (id : ℕ) (pays receives : Asset) : LedgerM Bool := do
  let s ← get
  let order ← require .danglingIterator (s.callOrders.lookup id)
  assert .assertion (order.debtType = receives.assetId)
  assert .assertion (order.getCollateral.assetId = pays.assetId)
  assert .assertion (pays.amount ≤ order.collateral)
  let reduced :=
    { order with
      debt := order.debt - receives.amount
      collateral := order.collateral - pays.amount }
  update fun s =>
    { s with
      callOrders := s.callOrders.modify id fun _ =>
        if reduced.debt = 0 then { reduced with collateral := 0 } else reduced }
  modifyDynamicData receives.assetId fun d =>
    { d with currentSupply := d.currentSupply - receives.amount }
  releaseCollateral order.borrower pays reduced.freed
  removeCallOrder id reduced.freed

/-- `cancel_order` of a force settlement. -/
def cancelSettlement (id : ℕ) : LedgerM Unit := do
  let s ← get
  let order ← require .danglingIterator (s.settlements.lookup id)
  adjustBalance order.owner order.balance
  update fun s => { s with settlements := s.settlements.erase id }

/-- What is left of a settlement that was not filled. -/
def reduceSettlement (id : ℕ) (pays : Asset) (filled : Bool) : LedgerM Unit :=
  if filled then pure ()
  else update fun s =>
    { s with
      settlements := s.settlements.modify id fun o => { o with balance := o.balance.less pays.amount } }

/-- A settlement that was filled is removed. -/
def removeSettlement (id : ℕ) (filled : Bool) : LedgerM Unit :=
  if filled then update fun s => { s with settlements := s.settlements.erase id } else pure ()

/-- `fill_order` of a force settlement. -/
def fillSettlement (id : ℕ) (pays receives : Asset) : LedgerM Bool := do
  let s ← get
  let settle ← require .danglingIterator (s.settlements.lookup id)
  let issuerFees ← payMarketFees receives
  let less ← lift (pays.lt settle.balance)
  reduceSettlement id pays (!less)
  adjustBalance settle.owner (receives.less issuerFees)
  removeSettlement id (!less)
  return !less

/-! ### Matching -/

/-- How much two limit orders exchange: what the first one receives, and what it pays. -/
def exchanged (usdForSale coreForSale : Asset) (matchPrice : Price) :
    Except LedgerError (Asset × Asset) := do
  let wanted ← coreForSale.mul matchPrice
  let fits ← usdForSale.le wanted
  if fits then do
    let receives ← usdForSale.mul matchPrice
    return (receives, usdForSale)
  else do
    let pays ← coreForSale.mul matchPrice
    return (coreForSale, pays)

/-- `match` of two limit orders; which of them were filled. -/
def matchLimitOrders (usdId coreId : ℕ) (matchPrice : Price) : LedgerM (Bool × Bool) := do
  let s ← get
  let usd ← require .danglingIterator (s.limitOrders.lookup usdId)
  let coreOrder ← require .danglingIterator (s.limitOrders.lookup coreId)
  let (usdReceives, usdPays) ← lift (exchanged usd.amountForSale coreOrder.amountForSale matchPrice)
  let usdFilled ← fillLimitOrder usdId usdPays usdReceives false
  let coreFilled ← fillLimitOrder coreId usdReceives usdPays true
  return (usdFilled, coreFilled)

/-- `match` of a call order and a force settlement; what the call order received. -/
def matchSettlement (callId settleId : ℕ) (matchPrice : Price) (maxSettlement : Asset) :
    LedgerM Asset := do
  let s ← get
  let call ← require .danglingIterator (s.callOrders.lookup callId)
  let settle ← require .danglingIterator (s.settlements.lookup settleId)
  assert .assertion (call.debtType = settle.balance.assetId)
  assert .assertion (0 < call.debt ∧ 0 < call.collateral ∧ 0 < settle.balance.amount)
  let settleForSale ← lift (settle.balance.min maxSettlement)
  let callReceives ← lift (settleForSale.min call.getDebt)
  let callPays ← lift (callReceives.mul matchPrice)
  let covered ← lift (callPays.lt call.getCollateral)
  assert .blackSwan (covered = true)
  let _ ← fillCallOrder callId callPays callReceives
  let _ ← fillSettlement settleId callReceives callPays
  return callReceives

/-! ### Global settlement -/

/-- What a call order pays at the settlement price, with all its collateral at most. -/
def settlementPays (order : CallOrder) (settlementPrice : Price) : Except LedgerError Asset := do
  let pays ← order.getDebt.mul settlementPrice
  let short ← pays.gt order.getCollateral
  return if short then order.getCollateral else pays

/-- The loop of `globally_settle_asset` over the call orders; the collateral gathered. -/
def settleCallOrders (settlementPrice : Price) : List ℕ → Asset → LedgerM Asset
  | [], gathered => return gathered
  | id :: ids, gathered => do
    let s ← get
    let order ← require .danglingIterator (s.callOrders.lookup id)
    let pays ← lift (settlementPays order settlementPrice)
    let gathered ← lift (gathered.add pays)
    let filled ← fillCallOrder id pays order.getDebt
    assert .assertion (filled = true)
    settleCallOrders settlementPrice ids gathered

/-- `globally_settle_asset`. Filling the call orders takes their debt off the supply, which is put
back at the end. -/
def globallySettleAsset (mia : ℕ) (settlementPrice : Price) : LedgerM Unit := do
  let s ← get
  let bitasset ← require .notFound (s.bitassets.lookup mia)
  assert .assertion (bitasset.hasSettlement = false)
  let _ ← require .notFound (s.assets.lookup bitasset.shortBackingAsset)
  let miaDyn ← require .notFound (s.dynamicData.lookup mia)
  let calls ← lift (s.callsOf bitasset.shortBackingAsset mia)
  let gathered ← settleCallOrders settlementPrice (calls.map Prod.fst) ⟨0, bitasset.shortBackingAsset⟩
  let price ← lift (Asset.div ⟨miaDyn.currentSupply, mia⟩ gathered)
  update fun s =>
    { s with
      bitassets := s.bitassets.modify mia fun b =>
        { b with settlementPrice := price, settlementFund := gathered.amount } }
  modifyDynamicData mia fun d => { d with currentSupply := miaDyn.currentSupply }

/-! ### Margin calls -/

/-- The highest of the settlement price and the best bid. -/
def Books.highestBid (s : Books) (mia : ℕ) (bitasset : BitassetData) : Except LedgerError Price := do
  let highest ← Price.max mia bitasset.shortBackingAsset
  let lowest ← Price.min mia bitasset.shortBackingAsset
  match s.limitsBetween highest lowest with
  | [] => return bitasset.currentFeed.settlementPrice
  | (_, order) :: _ =>
    -- `std::max`
    return if order.sellPrice.lt bitasset.currentFeed.settlementPrice
      then bitasset.currentFeed.settlementPrice else order.sellPrice

/-- The swan price, if the least collateralized call order cannot be covered any more. -/
def Books.swanPrice (s : Books) (mia : ℕ) (bitasset : BitassetData) :
    Except LedgerError (Option Price) := do
  let highest ← s.highestBid mia bitasset
  match ← s.callsOf bitasset.shortBackingAsset mia with
  | [] => return none
  | (_, order) :: _ =>
    return if order.collateralization.inv.ge highest then some order.collateralization.inv else none

/-- A black swan settles the asset, if it is allowed. -/
def settleAtSwanPrice (mia : ℕ) (enableBlackSwan : Bool) : Option Price → LedgerM Bool
  | none => return false
  | some price => do
    assert .assertion (enableBlackSwan = true)
    globallySettleAsset mia price
    return true

/-- `check_for_blackswan`. -/
def checkForBlackswan (mia : ℕ) (enableBlackSwan : Bool) : LedgerM Bool := do
  let s ← get
  match s.bitassets.lookup mia with
  | none => return false
  | some bitasset =>
    if bitasset.hasSettlement then return true
    else if bitasset.currentFeed.settlementPrice.isNull then return false
    else do
      let swan ← lift (s.swanPrice mia bitasset)
      settleAtSwanPrice mia enableBlackSwan swan

/-- How much a call order buys from a limit order: what it receives and pays, whether it is filled
and whether the limit order is. -/
def marginCallAmounts (usdToBuy usdForSale : Asset) (matchPrice : Price) :
    Except LedgerError (Asset × Asset × Bool × Bool) := do
  let limitFilled ← usdToBuy.ge usdForSale
  if limitFilled then do
    let pays ← usdForSale.mul matchPrice
    return (usdForSale, pays, decide (usdToBuy = usdForSale), true)
  else do
    let pays ← usdToBuy.mul matchPrice
    return (usdToBuy, pays, true, false)

/-- How a round of the loop over the call orders ends. -/
inductive MarginCall
  /-- The loop ends with this result. -/
  | stop (marginCalled : Bool)
  /-- A call order was called; whether it was filled, and the variable `filled_limit`. -/
  | called (filledCall filledLimit : Bool)

/-- The call order buys from the limit order. -/
def executeMarginCall (call limit : ℕ) (usdToBuy usdForSale : Asset) (matchPrice : Price)
    (filledLimit : Bool) : LedgerM MarginCall := do
  let (receives, pays, callFilled, limitFilled) ←
    lift (marginCallAmounts usdToBuy usdForSale matchPrice)
  let _ ← fillCallOrder call pays receives
  let _ ← fillLimitOrder limit receives pays true
  -- the variable is set in a round that fills the limit order, and never cleared
  return .called callFilled (filledLimit || limitFilled)

/-- A call order that cannot pay at the price of the limit order is a black swan. -/
def callOrSettle (mia : ℕ) (bitasset : BitassetData) (enableBlackSwan swan : Bool) (call limit : ℕ)
    (usdToBuy usdForSale : Asset) (matchPrice : Price) (filledLimit : Bool) : LedgerM MarginCall :=
  if swan then do
    assert .assertion (enableBlackSwan = true)
    globallySettleAsset mia bitasset.currentFeed.settlementPrice
    return .stop true
  else executeMarginCall call limit usdToBuy usdForSale matchPrice filledLimit

/-- The body of the loop of `check_call_orders`. -/
def marginCallRound (mia : ℕ) (bitasset : BitassetData) (enableBlackSwan : Bool) (call limit : ℕ)
    (filledLimit marginCalled : Bool) : LedgerM MarginCall := do
  let s ← get
  let limitOrder ← require .danglingIterator (s.limitOrders.lookup limit)
  let callOrder ← require .danglingIterator (s.callOrders.lookup call)
  lift limitOrder.sellPrice.validate
  if (bitasset.currentFeed.settlementPrice.gt callOrder.callPrice.inv &&
      decide (hardfork436Time < s.headTime)) || limitOrder.sellPrice.gt callOrder.callPrice.inv then
    return .stop marginCalled
  else do
    let cost ← lift (callOrder.getDebt.mul limitOrder.sellPrice)
    let swan ← lift (cost.gt callOrder.getCollateral)
    callOrSettle mia bitasset enableBlackSwan swan call limit callOrder.getDebt
      limitOrder.amountForSale limitOrder.sellPrice filledLimit

/-- The loop of `check_call_orders`. Every round that goes on leaves a call order or a limit order
behind, so that there is no call order left when the fuel is used up. -/
def marginCallLoop (mia : ℕ) (bitasset : BitassetData) (enableBlackSwan : Bool) :
    ℕ → List ℕ → List ℕ → (filledLimit marginCalled : Bool) → LedgerM Bool
  | 0, _, _, _, marginCalled => do
    let _ ← checkForBlackswan mia enableBlackSwan
    return marginCalled
  | fuel + 1, calls, limits, filledLimit, marginCalled => do
    let settled ← checkForBlackswan mia enableBlackSwan
    match settled, calls, limits with
    | true, _, _ => return marginCalled
    | false, [], _ => return marginCalled
    | false, _ :: _, [] => return marginCalled
    | false, call :: calls, limit :: limits => do
      let round ← marginCallRound mia bitasset enableBlackSwan call limit filledLimit marginCalled
      match round with
      | .stop result => return result
      | .called filledCall filledLimit =>
        marginCallLoop mia bitasset enableBlackSwan fuel (if filledCall then calls else call :: calls)
          (if filledLimit then limits else limit :: limits) filledLimit true

/-- The orders that `check_call_orders` goes through. -/
def Books.marginCalls (s : Books) (mia : ℕ) (bitasset : BitassetData) :
    Except LedgerError (List (ℕ × CallOrder) × List (ℕ × LimitOrder)) := do
  let maxPrice ← Price.max mia bitasset.shortBackingAsset
  let minPrice ← bitasset.currentFeed.maxShortSqueezePrice
  let calls ← s.callsOf bitasset.shortBackingAsset mia
  return (calls, s.limitsBetween maxPrice minPrice)

/-- The loop of `check_call_orders`, which starts only if there is a limit order. -/
def callMarginsOf (mia : ℕ) (bitasset : BitassetData) (enableBlackSwan : Bool)
    (calls limits : List ℕ) : LedgerM Bool :=
  if limits = [] then return false
  else
    marginCallLoop mia bitasset enableBlackSwan (calls.length + limits.length) calls limits false
      false

/-- `check_call_orders` of a bitasset that is not settled. -/
def callMargins (mia : ℕ) (bitasset : BitassetData) (enableBlackSwan : Bool) : LedgerM Bool :=
  if bitasset.isPredictionMarket || bitasset.currentFeed.settlementPrice.isNull then return false
  else do
    let s ← get
    let (calls, limits) ← lift (s.marginCalls mia bitasset)
    callMarginsOf mia bitasset enableBlackSwan (calls.map Prod.fst) (limits.map Prod.fst)

/-- `check_call_orders`. -/
def checkCallOrders (mia : ℕ) (enableBlackSwan : Bool) : LedgerM Bool := do
  let s ← get
  match s.bitassets.lookup mia with
  | none => return false
  | some bitasset => do
    let settled ← checkForBlackswan mia enableBlackSwan
    if settled then return false else callMargins mia bitasset enableBlackSwan

/-! ### New orders -/

/-- The loop of `apply_order` over the orders that may be matched. -/
def matchOrders (orderId : ℕ) : List ℕ → LedgerM Unit
  | [] => pure ()
  | id :: ids => do
    let s ← get
    let old ← require .danglingIterator (s.limitOrders.lookup id)
    let (newFilled, oldFilled) ← matchLimitOrders orderId id old.sellPrice
    -- "match returns 2 when only the old order was fully filled"
    if newFilled = false ∧ oldFilled = true then matchOrders orderId ids else pure ()

/-- The end of `apply_order`: an order that is still there may be too small. -/
def cullNewOrder (orderId : ℕ) : LedgerM Bool := do
  let s ← get
  match s.limitOrders.lookup orderId with
  | none => return true
  | some _ => if s.headTime ≤ hardfork555Time then return false else maybeCullSmallOrder orderId

/-- The new order is matched with those of the other side, best price first. -/
def matchNewOrder (orderId : ℕ) (sellPrice : Price) : LedgerM Unit := do
  let s ← get
  let highest ← lift (Price.max sellPrice.quote.assetId sellPrice.base.assetId)
  matchOrders orderId ((s.limitsBetween highest sellPrice.inv).map Prod.fst)

/-- `apply_order` after the first margin calls. -/
def applyUncalledOrder (orderId : ℕ) (order : LimitOrder) (receiveAsset : ℕ)
    (calledSome allowBlackSwan : Bool) : LedgerM Bool := do
  let s ← get
  if calledSome = true ∧ s.limitOrders.lookup orderId = none then return true
  else do
    matchNewOrder orderId order.sellPrice
    let _ ← checkCallOrders order.sellPrice.base.assetId allowBlackSwan
    let _ ← checkCallOrders receiveAsset allowBlackSwan
    cullNewOrder orderId

/-- `apply_order`. -/
def applyOrder (orderId : ℕ) (allowBlackSwan : Bool) : LedgerM Bool := do
  let s ← get
  let order ← require .danglingIterator (s.limitOrders.lookup orderId)
  let receives ← lift order.amountToReceive
  let _ ← require .notFound (s.assets.lookup order.sellPrice.base.assetId)
  let _ ← require .notFound (s.assets.lookup receives.assetId)
  let calledSell ← checkCallOrders order.sellPrice.base.assetId allowBlackSwan
  let calledReceive ← checkCallOrders receives.assetId allowBlackSwan
  applyUncalledOrder orderId order receives.assetId (calledSell || calledReceive) allowBlackSwan

end FinChain.Ledger
