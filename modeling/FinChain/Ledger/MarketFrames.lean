import FinChain.Ledger.Actions

/-!
# What passes along the events

A relation that passes along the code that fills orders (`MarketFrame`) also passes along the loops
over expired orders, the maintenance, and every operation that does no more to the orders, bitassets
and locked balances than to fill and cancel orders (`MarketFrame.operation`). The proofs follow the
code from statement to statement.
-/

namespace FinChain.Ledger

open Exec

namespace QuietFrame

variable {R : Books → Books → Prop} (hR : QuietFrame R)
include hR

/-! ### Maintenance -/

theorem changeCoreSupply (x : ℤ) : KeepsOk R (changeCoreSupply x) :=
  hR.modifyDynamicData fun _ => rfl

theorem depositVesting (id : ℕ) (amount : ℤ) : KeepsOk R (depositVesting id amount) :=
  hR.keepsOk_get_bind fun _ => hR.keepsOk_require_bind fun _ =>
    hR.keepsOk_lift_bind fun _ => keepsOk_update fun _ => hR.rest rfl

theorem depositCashback (account : ℕ) (amount : ℤ) :
    KeepsOk R (depositCashback account amount) := by
  refine hR.keepsOk_get_bind fun _ => hR.keepsOk_require_bind fun _ =>
    keepsOk_ite (hR.keepsOk_pure ()) <| keepsOk_ite (hR.changeCoreSupply _) <|
      hR.keepsOk_bind ?_ fun created => ?_
  · refine hR.keepsOk_get_bind fun _ => hR.keepsOk_lift_bind fun id => ?_
    split
    · exact hR.keepsOk_bind (hR.depositVesting _ _) fun _ => hR.keepsOk_pure _
    · exact hR.keepsOk_get_bind fun _ =>
        hR.keepsOk_bind (keepsOk_update fun _ => hR.rest rfl) fun _ => hR.keepsOk_pure _
  · cases created with
    | none => exact hR.keepsOk_pure ()
    | some id => exact keepsOk_update fun _ => hR.rest rfl

theorem payOutFees (account : ℕ) (total : ℤ) : KeepsOk R (payOutFees account total) :=
  hR.keepsOk_get_bind fun _ => hR.keepsOk_require_bind fun _ =>
    hR.keepsOk_require_bind fun _ =>
      hR.keepsOk_bind (keepsOk_update fun _ => hR.rest rfl) fun _ =>
        hR.keepsOk_lift_bind fun ⟨_, _, _, _⟩ =>
          hR.keepsOk_bind (hR.modifyDynamicData fun _ => rfl) fun _ =>
            hR.keepsOk_bind (hR.depositCashback _ _) fun _ =>
              hR.keepsOk_bind (hR.depositCashback _ _) fun _ => hR.depositCashback _ _

theorem processFees (account : ℕ) : KeepsOk R (processFees account) :=
  hR.keepsOk_get_bind fun _ => hR.keepsOk_require_bind fun _ => keepsOk_ite
    (hR.keepsOk_bind (hR.payOutFees _ _) fun _ =>
      hR.keepsOk_bind (hR.payOutFees _ _) fun _ => hR.modifyStatistics fun _ => rfl)
    (hR.keepsOk_pure ())

theorem splitFbaBalance {S : Settings} (id networkPct buybackPct issuerPct : ℕ) :
    KeepsOk R (splitFbaBalance S id networkPct buybackPct issuerPct) := by
  have hclear : KeepsOk R (clearFba id) := keepsOk_update fun _ => hR.rest rfl
  exact hR.keepsOk_assert_bind <| hR.keepsOk_get_bind fun _ =>
    hR.keepsOk_require_bind fun _ => keepsOk_ite (hR.keepsOk_pure ()) <| keepsOk_ite
      (hR.keepsOk_bind (hR.changeCoreSupply _) fun _ => hclear) <|
        hR.keepsOk_lift_bind fun _ => hR.keepsOk_lift_bind fun _ =>
          hR.keepsOk_assert_bind <| hR.keepsOk_require_bind fun _ =>
            hR.keepsOk_require_bind fun _ =>
              hR.keepsOk_bind (hR.changeCoreSupply _) fun _ =>
                hR.keepsOk_bind (hR.adjustBalance _ _) fun _ =>
                  hR.keepsOk_bind (hR.adjustBalance _ _) fun _ => hclear

theorem payWorker (id : ℕ) (pay : ℤ) (w : WorkerType) : KeepsOk R (w.payWorker id pay) := by
  cases w with
  | refund burned =>
    exact hR.keepsOk_bind (hR.changeCoreSupply _) fun _ =>
      keepsOk_update fun _ => hR.rest rfl
  | vestingBalance balance => exact hR.depositVesting _ _
  | burn burned =>
    exact hR.keepsOk_bind (hR.adjustBalance _ _) fun _ =>
      keepsOk_update fun _ => hR.rest rfl

theorem payWorkerList (elapsed : ℤ) (ws : List (ℕ × Worker)) (budget : ℤ) :
    KeepsOk R (payWorkerList elapsed ws budget) := by
  induction ws generalizing budget with
  | nil => exact hR.keepsOk_pure _
  | cons w ws ih =>
    exact keepsOk_ite (hR.keepsOk_lift_bind fun _ =>
      hR.keepsOk_bind (hR.payWorker _ _ _) fun _ => ih _) (hR.keepsOk_pure _)

theorem processBudget : KeepsOk R processBudget :=
  hR.keepsOk_get_bind fun _ => hR.keepsOk_require_bind fun _ =>
    hR.keepsOk_require_bind fun _ => hR.keepsOk_lift_bind fun _ =>
      hR.keepsOk_lift_bind fun _ => hR.keepsOk_lift_bind fun _ =>
        hR.keepsOk_bind (hR.keepsOk_get_bind fun _ => hR.payWorkerList _ _ _) fun _ =>
          hR.keepsOk_bind (hR.modifyDynamicData fun _ => rfl) fun _ =>
            keepsOk_update fun _ => hR.rest rfl

end QuietFrame

/-! ### Expired orders -/

namespace FillFrame

variable {R : Books → Books → Prop} (hR : FillFrame R)
include hR

theorem limitOrderCancel {S : Settings} (op : LimitOrderCancel) (skip : Bool) :
    KeepsOk R (op.evaluator.run S skip) :=
  hR.evaluator skip (hR.of_read LimitOrderCancel.doEvaluate_read) (hR.payFee _) fun _ _ =>
    hR.keepsOk_bind (hR.cancelLimitOrder _) fun _ => hR.keepsOk_get_bind fun _ =>
      hR.keepsOk_require_bind fun _ => hR.keepsOk_bind (hR.checkCallOrders _ _) fun _ =>
        hR.keepsOk_get_bind fun _ => hR.keepsOk_require_bind fun _ =>
          hR.keepsOk_bind (hR.checkCallOrders _ _) fun _ => hR.keepsOk_pure _

theorem clearLimitOrders {S : Settings} (fuel : ℕ) : KeepsOk R (clearLimitOrders S fuel) := by
  induction fuel with
  | zero => exact hR.keepsOk_pure ()
  | succ fuel ih =>
    refine hR.keepsOk_get_bind fun s => ?_
    split
    · exact hR.keepsOk_pure ()
    · exact hR.keepsOk_bind (hR.limitOrderCancel _ _) fun _ => ih

end FillFrame

/-! ### Volumes and settlements -/

namespace MarketFrame

variable {R : Books → Books → Prop} (hR : MarketFrame R)
include hR

theorem resetVolumes (s : Books) : R s s.resetVolumes := by
  unfold Books.resetVolumes
  generalize s.bitassets.keys = ks
  -- one bitasset after the other
  have hall : ∀ t : Table ℕ BitassetData, R { s with bitassets := t } { s with
      bitassets := ks.foldl (fun t k => t.modify k fun b => { b with forceSettledVolume := 0 }) t } := by
    induction ks with
    | nil => exact fun t => hR.refl _
    | cons k ks ih =>
      intro t
      have hfirst := hR.bitasset (k := k) (g := fun b => { b with forceSettledVolume := 0 })
        { s with bitassets := t } fun _ => ⟨rfl, rfl, rfl, rfl⟩
      exact hR.trans hfirst (ih _)
  exact hall s.bitassets

theorem performChainMaintenance {S : Settings} (accounts : List ℕ) (parameters : ChainParameters)
    (firstBlock : Bool) : KeepsOk R (performChainMaintenance S accounts parameters firstBlock) := by
  have hfbas : KeepsOk R (distributeFbaBalances S) :=
    hR.keepsOk_bind (hR.splitFbaBalance _ _ _ _) fun _ =>
      hR.keepsOk_bind (hR.splitFbaBalance _ _ _ _) fun _ => hR.splitFbaBalance _ _ _ _
  exact hR.keepsOk_bind hfbas fun _ =>
    hR.keepsOk_bind (hR.keepsOk_forM hR.processFees accounts) fun _ =>
      hR.keepsOk_bind (keepsOk_update fun _ => hR.rest rfl) fun _ =>
        hR.keepsOk_bind (keepsOk_update fun _ => hR.rest rfl) fun _ =>
          hR.keepsOk_bind (keepsOk_update hR.resetVolumes) fun _ => hR.processBudget

theorem matchOrCancel (call : Option (ℕ × CallOrder)) (orderId : ℕ) (order : ForceSettlement)
    (price : Price) (maxSettlement : Asset) :
    KeepsOk R (matchOrCancel call orderId order price maxSettlement) := by
  intro s settled s' h
  rcases matchOrCancel_ok h with ⟨-, hcancel⟩ | ⟨callId, amount, -, hmatched⟩
  · exact hR.cancelSettlement _ s () s' hcancel
  · exact hR.matchSettlement _ _ _ _ s amount s' hmatched

theorem settleAgainstCalls (orderId mia backing : ℕ) (price : Price) (maxVolume : Asset) (fuel : ℕ)
    (settled : Asset) :
    KeepsOk R (settleAgainstCalls orderId mia backing price maxVolume fuel settled) := by
  induction fuel generalizing settled with
  | zero => exact hR.keepsOk_pure _
  | succ fuel ih =>
    refine hR.keepsOk_get_bind fun s => hR.keepsOk_lift_bind fun more => ?_
    split
    · refine hR.keepsOk_lift_bind fun _ => hR.keepsOk_lift_bind fun _ =>
        hR.keepsOk_bind (hR.matchOrCancel _ _ _ _ _) fun amount => ?_
      split
      · exact hR.keepsOk_pure _
      · exact hR.keepsOk_lift_bind fun _ => ih _
    · exact hR.keepsOk_pure _

theorem settleDue (id : ℕ) (order : ForceSettlement) (b : BitassetData) (maxVolume : Asset) :
    KeepsOk R (settleDue id order b maxVolume) :=
  hR.keepsOk_get_bind fun _ => hR.keepsOk_lift_bind fun _ =>
    hR.keepsOk_lift_bind fun _ =>
      hR.keepsOk_bind (hR.settleAgainstCalls _ _ _ _ _ _ _) fun _ =>
        hR.modifyBitasset fun _ => ⟨rfl, rfl, rfl, rfl⟩

theorem settlementRound (assetId id : ℕ) (order : ForceSettlement) (maxVolume : Asset) :
    KeepsOk R (settlementRound assetId id order maxVolume) := by
  have hcancel : KeepsOk R
      (do Ledger.cancelSettlement id; return some (assetId, maxVolume) : LedgerM SettlementCursor) :=
    hR.keepsOk_bind (hR.cancelSettlement _) fun _ => hR.keepsOk_pure _
  refine hR.keepsOk_get_bind fun _ => hR.keepsOk_require_bind fun _ =>
    hR.keepsOk_require_bind fun _ => keepsOk_ite hcancel <|
      keepsOk_ite (hR.keepsOk_pure _) <| keepsOk_ite hcancel ?_
  exact hR.keepsOk_get_bind fun _ => hR.keepsOk_lift_bind fun _ =>
    keepsOk_ite (hR.keepsOk_pure _) <|
      hR.keepsOk_bind (hR.settleDue _ _ _ _) fun _ => hR.keepsOk_pure _

theorem clearSettlements (fuel : ℕ) (cursor : SettlementCursor) :
    KeepsOk R (clearSettlements fuel cursor) := by
  induction fuel generalizing cursor with
  | zero => exact hR.keepsOk_pure ()
  | succ fuel ih =>
    cases cursor with
    | none => exact hR.keepsOk_pure ()
    | some cursor =>
      refine hR.keepsOk_get_bind fun s => ?_
      split
      · exact hR.keepsOk_pure ()
      · split
        · exact hR.keepsOk_pure ()
        · exact hR.keepsOk_bind (hR.settlementRound _ _ _ _) fun _ => ih _

theorem clearExpiredOrders {S : Settings} : KeepsOk R (clearExpiredOrders S) :=
  hR.keepsOk_get_bind fun _ => hR.keepsOk_bind (hR.filling.clearLimitOrders _) fun _ =>
    hR.keepsOk_get_bind fun _ => hR.clearSettlements _ _

/-! ### Assets -/

theorem cancelSettlements (ids : List ℕ) : KeepsOk R (cancelSettlements ids) := by
  induction ids with
  | nil => exact hR.keepsOk_pure ()
  | cons id ids ih => exact hR.keepsOk_bind (hR.cancelSettlement _) fun _ => ih

theorem assetUpdate (op : AssetUpdate) (a : AssetObject) :
    KeepsOk R (op.doApply a) := by
  refine hR.keepsOk_bind ?_ fun _ => keepsOk_update fun _ => hR.rest rfl
  exact hR.keepsOk_get_bind fun _ => keepsOk_ite (hR.cancelSettlements _)
    (hR.keepsOk_pure ())

theorem assetSettle (op : AssetSettle) : KeepsOk R op.doApply := by
  refine hR.keepsOk_bind (hR.adjustBalance _ _) fun _ => hR.keepsOk_get_bind fun _ =>
    hR.keepsOk_require_bind fun _ => keepsOk_ite ?_ ?_
  · exact hR.keepsOk_lift_bind fun _ => hR.keepsOk_assert_bind <|
      hR.keepsOk_bind (hR.modifyBitasset fun _ => ⟨rfl, rfl, rfl, rfl⟩) fun _ =>
        hR.keepsOk_bind (hR.adjustBalance _ _) fun _ => hR.modifyDynamicData fun _ => rfl
  · exact keepsOk_update fun s => hR.settlements s _

theorem followRate (assetId : ℕ) : KeepsOk R (followRate assetId) :=
  hR.keepsOk_get_bind fun _ => hR.keepsOk_require_bind fun _ =>
    hR.keepsOk_require_bind fun _ =>
      keepsOk_ite (keepsOk_update fun _ => hR.rest rfl) (hR.keepsOk_pure ())

end MarketFrame

/-! ### Operations -/

/-- The operation may fill and cancel orders, but does nothing else to the orders, bitassets and locked
balances. -/
def Operation.Plain : Operation → Prop
  | transfer _ | limitOrderCancel _ | assetUpdate _ | assetIssue _ | assetReserve _ | assetFundFeePool _
  | assetSettle _ | assetGlobalSettle _ | assetClaimFees _ => True
  | _ => False

/-- **A plain operation** keeps such a relation. -/
theorem MarketFrame.operation {R : Books → Books → Prop} (hR : MarketFrame R) {S : Settings}
    {op : Operation} (hop : op.Plain) : KeepsOk R (op.run S) := by
  cases op with
  | transfer op =>
    exact hR.keepsOk_assert_bind <| hR.evaluator false (hR.of_read Transfer.doEvaluate_read)
      (hR.payFee _) fun _ _ => hR.keepsOk_bind (hR.adjustBalance _ _) fun _ => hR.adjustBalance _ _
  | limitOrderCancel op => exact hR.keepsOk_assert_bind (hR.filling.limitOrderCancel op false)
  | assetUpdate op =>
    exact hR.keepsOk_bind (hR.of_read AssetUpdate.validate_read) fun _ =>
      hR.evaluator false (hR.of_read fun h => (AssetUpdate.doEvaluate_ok h).1) (hR.payFee _)
        fun _ a => hR.assetUpdate op a
  | assetIssue op =>
    exact hR.keepsOk_assert_bind <| hR.evaluator false
      (hR.of_read fun h => (AssetIssue.doEvaluate_ok h).1) (hR.payFee _) fun _ _ =>
        hR.keepsOk_bind (hR.adjustBalance _ _) fun _ => hR.modifyDynamicData fun _ => rfl
  | assetReserve op =>
    exact hR.keepsOk_assert_bind <| hR.evaluator false
      (hR.of_read fun h => (AssetReserve.doEvaluate_ok h).1) (hR.payFee _) fun _ _ =>
        hR.keepsOk_bind (hR.adjustBalance _ _) fun _ => hR.modifyDynamicData fun _ => rfl
  | assetFundFeePool op =>
    have hread : KeepsOk R op.doEvaluate :=
      hR.keepsOk_get_bind fun _ => hR.keepsOk_require_bind fun _ => hR.keepsOk_pure _
    exact hR.keepsOk_assert_bind <| hR.evaluator false hread (hR.payFee _) fun _ _ =>
      hR.keepsOk_bind (hR.adjustBalance _ _) fun _ => hR.modifyDynamicData fun _ => rfl
  | assetSettle op =>
    exact hR.keepsOk_assert_bind <| hR.evaluator false (hR.of_read AssetSettle.doEvaluate_read)
      (hR.payFee _) fun _ _ => hR.assetSettle op
  | assetGlobalSettle op =>
    exact hR.keepsOk_assert_bind <| hR.evaluator false
      (hR.of_read fun h => (AssetGlobalSettle.doEvaluate_ok h).1) (hR.payFee _) fun _ _ =>
        hR.filling.globallySettleAsset _ _
  | assetClaimFees op =>
    have hread : KeepsOk R op.doEvaluate :=
      hR.keepsOk_get_bind fun _ => hR.keepsOk_require_bind fun _ => hR.keepsOk_assert _ _
    exact hR.keepsOk_assert_bind <| hR.evaluator false hread (hR.payFee _) fun _ _ =>
      hR.keepsOk_get_bind fun _ => hR.keepsOk_require_bind fun _ => hR.keepsOk_assert_bind <|
        hR.keepsOk_bind (hR.modifyDynamicData fun _ => rfl) fun _ => hR.adjustBalance _ _
  | limitOrderCreate | callOrderUpdate | assetCreate | assetUpdateBitasset | assetUpdateFeedProducers
  | assetPublishFeed | lock => cases hop

end FinChain.Ledger
