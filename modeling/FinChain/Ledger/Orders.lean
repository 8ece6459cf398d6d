import FinChain.Ledger.Bitassets

/-!
# Limit orders and margin positions

The operations of `market_evaluator.cpp`, and `clear_expired_orders`, which runs in every block: it
cancels the limit orders that have expired, with the operation a seller would use, and settles the
force settlements that are due.

The fee of a limit order is kept in the order until it is filled for the first time, since the issue
445 hardfork.
-/

namespace FinChain.Ledger

open Exec

/-- `HARDFORK_445_TIME`. -/
def hardfork445Time : ℕ := 1450288800

/-! ### Limit orders -/

/-- `limit_order_create_operation`. The amounts are of type `share_type`. -/
structure LimitOrderCreate where
  fee : Asset
  seller : ℕ
  amountToSell : Asset
  minToReceive : Asset
  expiration : ℕ
  fillOrKill : Bool
  amountToSell_fits : FitsShare amountToSell.amount := by decide
  minToReceive_fits : FitsShare minToReceive.amount := by decide

namespace LimitOrderCreate

def validate (op : LimitOrderCreate) : LedgerM Unit :=
  assert .assertion (op.amountToSell.assetId ≠ op.minToReceive.assetId ∧ 0 ≤ op.fee.amount ∧
    0 < op.amountToSell.amount ∧ 0 < op.minToReceive.amount)

def doEvaluate (S : Settings) (op : LimitOrderCreate) : LedgerM Unit := do
  let s ← get
  assert .assertion (s.headTime ≤ op.expiration)
  let sell ← require .notFound (s.assets.lookup op.amountToSell.assetId)
  let _ ← require .notFound (s.assets.lookup op.minToReceive.assetId)
  assert .assertion (sell.options.whitelistMarkets ≠ [] →
    op.minToReceive.assetId ∈ sell.options.whitelistMarkets)
  assert .assertion (sell.options.blacklistMarkets ≠ [] →
    op.minToReceive.assetId ∉ sell.options.blacklistMarkets)
  assert .assertion (S.isAuthorizedAsset s op.seller op.amountToSell.assetId = true)
  assert .assertion (S.isAuthorizedAsset s op.seller op.minToReceive.assetId = true)
  assert .assertion (op.amountToSell.amount ≤ s.getBalance op.seller op.amountToSell.assetId)

/-- `limit_order_create_evaluator::pay_fee`. The fee is deferred since the hardfork. -/
def payFee (op : LimitOrderCreate) (coreFeePaid : ℤ) : LedgerM Unit := do
  let s ← get
  if s.headTime ≤ hardfork445Time then Ledger.payFee op.seller coreFeePaid else pure ()

/-- Add an amount to `total_core_in_orders`, if it is in core. -/
def intoOrders (a : Asset) (x : AccountStatistics) : AccountStatistics :=
  if a.assetId = core then { x with totalCoreInOrders := x.totalCoreInOrders + a.amount } else x

/-- The new order; its key is returned. -/
def createOrder (op : LimitOrderCreate) (coreFeePaid : ℤ) : LedgerM ℕ := do
  let s ← get
  let sellPrice ← lift (op.amountToSell.div op.minToReceive)
  update fun s =>
    { s with
      limitOrders := s.limitOrders.create
        { expiration := op.expiration
          seller := op.seller
          forSale := op.amountToSell.amount
          sellPrice := sellPrice
          deferredFee := if s.headTime ≤ hardfork445Time then 0 else coreFeePaid.toNat } }
  return s.limitOrders.next

def doApply (op : LimitOrderCreate) (coreFeePaid : ℤ) : LedgerM Unit := do
  modifyStatistics op.seller (intoOrders op.amountToSell)
  adjustBalance op.seller op.amountToSell.neg
  let orderId ← op.createOrder coreFeePaid
  let filled ← applyOrder orderId true
  assert .assertion (op.fillOrKill = true → filled = true)

def evaluator (op : LimitOrderCreate) (S : Settings) : Evaluator Unit where
  feePayer := op.seller
  fee := op.fee
  kind := .limitOrderCreate
  doEvaluate := op.doEvaluate S
  payFee := op.payFee
  doApply := fun f _ => op.doApply f

end LimitOrderCreate

/-- `limit_order_cancel_operation`. -/
structure LimitOrderCancel where
  fee : Asset
  feePayingAccount : ℕ
  order : ℕ

namespace LimitOrderCancel

def validate (op : LimitOrderCancel) : LedgerM Unit := assert .assertion (0 ≤ op.fee.amount)

def doEvaluate (op : LimitOrderCancel) : LedgerM LimitOrder := do
  let s ← get
  let order ← require .notFound (s.limitOrders.lookup op.order)
  assert .assertion (order.seller = op.feePayingAccount)
  return order

def doApply (op : LimitOrderCancel) (order : LimitOrder) : LedgerM Unit := do
  cancelLimitOrder op.order
  let s ← get
  let _ ← require .notFound (s.assets.lookup order.sellPrice.base.assetId)
  let _ ← checkCallOrders order.sellPrice.base.assetId true
  let s ← get
  let _ ← require .notFound (s.assets.lookup order.sellPrice.quote.assetId)
  let _ ← checkCallOrders order.sellPrice.quote.assetId true

def evaluator (op : LimitOrderCancel) : Evaluator LimitOrder where
  feePayer := op.feePayingAccount
  fee := op.fee
  kind := .limitOrderCancel
  doEvaluate := op.doEvaluate
  doApply := fun _ order => op.doApply order

end LimitOrderCancel

/-! ### Margin positions -/

/-- `call_order_update_operation`. The amounts are of type `share_type`. -/
structure CallOrderUpdate where
  fee : Asset
  fundingAccount : ℕ
  deltaCollateral : Asset
  deltaDebt : Asset
  deltaCollateral_fits : FitsShare deltaCollateral.amount := by decide
  deltaDebt_fits : FitsShare deltaDebt.amount := by decide

/-- The call order of an account in an asset. -/
def Books.findCall (s : Books) (borrower debtType : ℕ) : Option (ℕ × CallOrder) :=
  s.callOrders.entries.find? fun e => decide (e.2.borrower = borrower ∧ e.2.debtType = debtType)

namespace CallOrderUpdate

def validate (op : CallOrderUpdate) : LedgerM Unit :=
  assert .assertion (0 ≤ op.fee.amount ∧ op.deltaCollateral.assetId ≠ op.deltaDebt.assetId ∧
    (op.deltaCollateral.amount ≠ 0 ∨ op.deltaDebt.amount ≠ 0))

/-- In a prediction market debt and collateral change together; any other asset must have a feed. -/
def checkFeed (op : CallOrderUpdate) (b : BitassetData) : LedgerM Unit :=
  if b.isPredictionMarket then assert .assertion (op.deltaCollateral.amount = op.deltaDebt.amount)
  else assert .insufficientFeeds (b.currentFeed.settlementPrice.isNull = false)

def doEvaluate (op : CallOrderUpdate) : LedgerM BitassetData := do
  let s ← get
  let _ ← require .notFound (s.statistics.lookup op.fundingAccount)
  let _ ← require .notFound (s.assets.lookup op.deltaDebt.assetId)
  let b ← require .assertion (s.bitassets.lookup op.deltaDebt.assetId)
  assert .assertion (b.hasSettlement = false)
  assert .assertion (op.deltaCollateral.assetId = b.shortBackingAsset)
  op.checkFeed b
  -- the check compares with the negative amount
  assert .assertion (op.deltaDebt.amount < 0 →
    op.deltaDebt.amount ≤ s.getBalance op.fundingAccount op.deltaDebt.assetId)
  assert .assertion (0 < op.deltaCollateral.amount →
    op.deltaCollateral.amount ≤ s.getBalance op.fundingAccount b.shortBackingAsset)
  return b

/-- The debt is paid out and joins the supply, or is paid back and leaves it. -/
def moveDebt (op : CallOrderUpdate) : LedgerM Unit :=
  if op.deltaDebt.amount = 0 then pure ()
  else do
    adjustBalance op.fundingAccount op.deltaDebt
    modifyDynamicData op.deltaDebt.assetId fun d =>
      { d with currentSupply := d.currentSupply + op.deltaDebt.amount }

/-- `total_core_in_orders` follows collateral in core. -/
def trackCollateral (op : CallOrderUpdate) : LedgerM Unit :=
  if op.deltaCollateral.assetId = core then
    modifyStatistics op.fundingAccount (LimitOrderCreate.intoOrders op.deltaCollateral)
  else pure ()

/-- The collateral is taken from the account, or returned. -/
def moveCollateral (op : CallOrderUpdate) : LedgerM Unit :=
  if op.deltaCollateral.amount = 0 then pure ()
  else do
    adjustBalance op.fundingAccount op.deltaCollateral.neg
    op.trackCollateral

/-- A new position; its key is returned. -/
def openPosition (op : CallOrderUpdate) (b : BitassetData) : LedgerM ℕ := do
  let s ← get
  assert .assertion (0 < op.deltaCollateral.amount)
  assert .assertion (0 < op.deltaDebt.amount)
  let price ← lift
    (Price.callPrice op.deltaDebt op.deltaCollateral b.currentFeed.maintenanceCollateralRatio)
  update fun s =>
    { s with
      callOrders := s.callOrders.create
        { borrower := op.fundingAccount
          collateral := op.deltaCollateral.amount
          debt := op.deltaDebt.amount
          callPrice := price } }
  return s.callOrders.next

/-- A position as the operation changes it. -/
def change (op : CallOrderUpdate) (order : CallOrder) : CallOrder :=
  { order with
    collateral := order.collateral + op.deltaCollateral.amount
    debt := order.debt + op.deltaDebt.amount }

/-- The call price of a position that has debt. -/
def priced (order : CallOrder) (b : BitassetData) : Except LedgerError CallOrder :=
  if 0 < order.debt then
    (Price.callPrice order.getDebt order.getCollateral
      b.currentFeed.maintenanceCollateralRatio).map fun price => { order with callPrice := price }
  else .ok order

/-- The position of the account is opened or changed. -/
def changePosition (op : CallOrderUpdate) (b : BitassetData) : Option (ℕ × CallOrder) → LedgerM ℕ
  | none => op.openPosition b
  | some (id, order) => do
    let changed ← lift (priced (op.change order) b)
    update fun s => { s with callOrders := s.callOrders.modify id fun _ => changed }
    return id

/-- "if we filled at least one call order, we are OK if we totally filled." -/
def checkMargin (op : CallOrderUpdate) (b : BitassetData) (id : ℕ) : LedgerM Unit := do
  let called ← checkCallOrders op.deltaDebt.assetId false
  let s ← get
  if called then assert .unfilledMarginCall (s.callOrders.lookup id = none)
  else do
    let order ← require .assertion (s.callOrders.lookup id)
    assert .unfilledMarginCall (order.callPrice.inv.lt b.currentFeed.settlementPrice = true)

/-- A position without debt is closed, any other one must have collateral and stand margin calls. -/
def closeOrCheck (op : CallOrderUpdate) (b : BitassetData) (id : ℕ) : LedgerM Unit := do
  let s ← get
  let order ← require .notFound (s.callOrders.lookup id)
  if order.debt = 0 then do
    assert .assertion (order.collateral = 0)
    update fun s => { s with callOrders := s.callOrders.erase id }
  else do
    assert .assertion (0 < order.collateral ∧ 0 < order.debt)
    if b.isPredictionMarket then pure () else op.checkMargin b id

def doApply (op : CallOrderUpdate) (b : BitassetData) : LedgerM Unit := do
  op.moveDebt
  op.moveCollateral
  let s ← get
  let id ← op.changePosition b (s.findCall op.fundingAccount op.deltaDebt.assetId)
  op.closeOrCheck b id

def evaluator (op : CallOrderUpdate) : Evaluator BitassetData where
  feePayer := op.fundingAccount
  fee := op.fee
  kind := .callOrderUpdate
  doEvaluate := op.doEvaluate
  doApply := fun _ b => op.doApply b

end CallOrderUpdate

/-! ### Expiration -/

/-- The order of `limit_order_index` by expiration. -/
def expiresBefore (a b : ℕ × LimitOrder) : Prop :=
  a.2.expiration < b.2.expiration ∨ a.2.expiration = b.2.expiration ∧ a.1 ≤ b.1

instance : DecidableRel expiresBefore := fun _ _ => inferInstanceAs (Decidable (_ ∨ _))

/-- The first limit order to expire, if it has expired. -/
def Books.firstExpired (s : Books) : Option (ℕ × LimitOrder) :=
  (s.limitOrders.entries.insertionSort expiresBefore).head?.filter fun e =>
    decide (e.2.expiration ≤ s.headTime)

/-- The operation that cancels an expired order. "Cap auto-cancel fees at deferred_fee" -/
def canceler (S : Settings) (s : Books) (id : ℕ) (order : LimitOrder) : LimitOrderCancel where
  fee := ⟨min (S.calculateFee s .limitOrderCancel) order.deferredFee, core⟩
  feePayingAccount := order.seller
  order := id

/-- The loop over the expired limit orders. Every round removes one. -/
def clearLimitOrders (S : Settings) : ℕ → LedgerM Unit
  | 0 => pure ()
  | fuel + 1 => do
    let s ← get
    match s.firstExpired with
    | none => pure ()
    | some (id, order) => do
      (canceler S s id order).evaluator.run S true
      clearLimitOrders S fuel

/-- A settlement that would bring about a black swan is cancelled. -/
def cancelAtSwan (orderId : ℕ) (e : LedgerError) : LedgerM (Option Asset) :=
  if e = .blackSwan then do
    cancelSettlement orderId
    return none
  else throw e

/-- The body of the loop over the call orders: how much was settled, or `none` when the settlement
was cancelled. -/
def matchOrCancel (call : Option (ℕ × CallOrder)) (orderId : ℕ) (order : ForceSettlement)
    (settlementPrice : Price) (maxSettlement : Asset) : LedgerM (Option Asset) :=
  if order.balance.amount = 0 then do
    cancelSettlement orderId
    return none
  else do
    let (callId, _) ← require .danglingIterator call
    tryCatch (some <$> matchSettlement callId orderId settlementPrice maxSettlement)
      (cancelAtSwan orderId)

/-- "Match against the least collateralized short until the settlement is finished or we reach max
settlements". Every round but the last two removes a call order. -/
def settleAgainstCalls (orderId mia backing : ℕ) (settlementPrice : Price) (maxVolume : Asset) :
    ℕ → Asset → LedgerM Asset
  | 0, settled => return settled
  | fuel + 1, settled => do
    let s ← get
    let more ← lift (settled.lt maxVolume)
    match more, s.settlements.lookup orderId with
    | true, some order => do
      let lowest ← lift (Price.min backing mia)
      let maxSettlement ← lift (maxVolume.sub settled)
      match ← matchOrCancel (s.leastCollateralized lowest) orderId order settlementPrice
          maxSettlement with
      | none => return settled
      | some amount => do
        let settled ← lift (settled.add amount)
        settleAgainstCalls orderId mia backing settlementPrice maxVolume fuel settled
    | _, _ => return settled

/-- What a settlement is to receive, at the feed and less the offset. -/
def settlementReceives (balance : Asset) (b : BitassetData) : Except LedgerError Asset := do
  let receives ← balance.mul b.currentFeed.settlementPrice
  let amount := uint128 (uint128 receives.amount *
    (hundredPercent - b.options.forceSettlementOffsetPercent : ℤ)) / hundredPercent
  if amount < 2 ^ 64 then .ok ⟨amount, receives.assetId⟩ else .error .assertion

/-- A settlement that is due is matched with call orders. -/
def settleDue (id : ℕ) (order : ForceSettlement) (b : BitassetData) (maxVolume : Asset) :
    LedgerM Unit := do
  let s ← get
  let receives ← lift (settlementReceives order.balance b)
  let settlementPrice ← lift (order.balance.div receives)
  let settled ← settleAgainstCalls id order.balance.assetId b.shortBackingAsset settlementPrice
    maxVolume (s.callOrders.entries.length + 2) ⟨b.forceSettledVolume, order.balance.assetId⟩
  modifyBitasset order.balance.assetId fun b => { b with forceSettledVolume := settled.amount }

/-- The first asset from `bound` on that has settlements. -/
def Books.nextSettlementAsset (s : Books) (bound : ℕ) : Option ℕ :=
  ((s.settlements.entries.map fun e => e.2.balance.assetId).filter (bound ≤ ·)).min?

/-- The volume that may be settled, when it is for another asset than before. -/
def Books.settlementVolume (s : Books) (assetId : ℕ) (b : BitassetData) (maxVolume : Asset) :
    Except LedgerError Asset :=
  if maxVolume.assetId = assetId then .ok maxVolume
  else
    match s.dynamicData.lookup assetId with
    | none => .error .notFound
    | some d => (b.maxForceSettlementVolume d.currentSupply).map fun amount => ⟨amount, assetId⟩

/-- The variables `current_asset` and `max_settlement_volume`; `none` ends the loop. -/
abbrev SettlementCursor := Option (ℕ × Asset)

/-- `next_asset`. -/
def Books.skipAsset (s : Books) (assetId : ℕ) (maxVolume : Asset) : SettlementCursor :=
  (s.nextSettlementAsset (assetId + 1)).map fun next => (next, maxVolume)

/-- A settlement is due, unless the volume of its asset is used up. -/
def settleWithin (assetId id : ℕ) (order : ForceSettlement) (b : BitassetData) (maxVolume : Asset) :
    LedgerM SettlementCursor := do
  let s ← get
  let maxVolume ← lift (s.settlementVolume assetId b maxVolume)
  if maxVolume.amount ≤ b.forceSettledVolume then return s.skipAsset assetId maxVolume
  else do
    settleDue id order b maxVolume
    return some (assetId, maxVolume)

/-- The body of the loop over the settlements. "At each iteration, we either consume the current
order and remove it, or we move to the next asset" -/
def settlementRound (assetId id : ℕ) (order : ForceSettlement) (maxVolume : Asset) :
    LedgerM SettlementCursor := do
  let s ← get
  let _ ← require .notFound (s.assets.lookup assetId)
  let b ← require .notFound (s.bitassets.lookup assetId)
  if b.hasSettlement then do
    cancelSettlement id
    return some (assetId, maxVolume)
  else if s.headTime < order.settlementDate then return s.skipAsset assetId maxVolume
  else if b.currentFeed.settlementPrice.isNull then do
    cancelSettlement id
    return some (assetId, maxVolume)
  else settleWithin assetId id order b maxVolume

/-- The loop over the settlements. An asset is left after at most two rounds that do not remove a
settlement. -/
def clearSettlements : ℕ → SettlementCursor → LedgerM Unit
  | 0, _ => pure ()
  | _ + 1, none => pure ()
  | fuel + 1, some (bound, maxVolume) => do
    let s ← get
    match s.nextSettlementAsset bound with
    | none => pure ()
    | some assetId =>
      match s.settlementsOf assetId with
      | [] => pure ()
      | (id, order) :: _ => do
        let cursor ← settlementRound assetId id order maxVolume
        clearSettlements fuel cursor

/-- `clear_expired_orders`. -/
def clearExpiredOrders (S : Settings) : LedgerM Unit := do
  let s ← get
  clearLimitOrders S s.limitOrders.entries.length
  let s ← get
  clearSettlements (3 * s.settlements.entries.length + 1) (some (0, ⟨0, core⟩))

end FinChain.Ledger
