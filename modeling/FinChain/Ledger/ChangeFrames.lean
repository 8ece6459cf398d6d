import FinChain.Ledger.Actions

/-!
# What is kept when an exception is thrown

An exception leaves the books behind as they were when it was thrown. What holds then cannot be seen from the runs
that return. A relation that is kept by each single change that the code that fills orders makes
(`ChangeFrame`) holds in any case, since it holds after any number of them.
-/

namespace FinChain.Ledger

open Exec

theorem prepareFee_passing {P : ∀ α : Type, LedgerM α → Prop} (hP : Passing P) (S : Settings) (account : ℕ)
    (fee : Asset) : P ℤ (prepareFee S account fee) :=
  hP.get_bind fun _ => hP.assert_bind <| hP.require_bind fun _ => hP.require_bind fun _ =>
    hP.require_bind fun _ => hP.assert_bind <| hP.ite (hP.pure _) <| hP.lift_bind fun _ =>
      hP.assert_bind <| hP.assert_bind (hP.pure _)

theorem LimitOrderCreate.doEvaluate_passing {P : ∀ α : Type, LedgerM α → Prop} (hP : Passing P) (S : Settings)
    (op : LimitOrderCreate) : P Unit (op.doEvaluate S) :=
  hP.get_bind fun _ => hP.assert_bind <| hP.require_bind fun _ => hP.require_bind fun _ =>
    hP.assert_bind <| hP.assert_bind <| hP.assert_bind <| hP.assert_bind (hP.assert _ _)

/-- The margin calls that come after a limit order was cancelled. -/
def LimitOrder.callBothAssets (order : LimitOrder) : LedgerM Unit := do
  let s ← get
  let _ ← require .notFound (s.assets.lookup order.sellPrice.base.assetId)
  let _ ← checkCallOrders order.sellPrice.base.assetId true
  let s ← get
  let _ ← require .notFound (s.assets.lookup order.sellPrice.quote.assetId)
  let _ ← checkCallOrders order.sellPrice.quote.assetId true

theorem LimitOrderCancel.doApply_eq (op : LimitOrderCancel) (order : LimitOrder) :
    op.doApply order = cancelLimitOrder op.order >>= fun _ => order.callBothAssets := rfl

/-- A relation that is kept by each change of the code that fills orders. -/
structure ChangeFrame (R : Books → Books → Prop) : Prop extends Frame R where
  balances : ∀ s t, R s { s with balances := t }
  statistics : ∀ s t, R s { s with statistics := t }
  dynamicData : ∀ s t, R s { s with dynamicData := t }
  bitassets : ∀ s t, R s { s with bitassets := t }
  callOrders : ∀ s t, R s { s with callOrders := t }
  modifyLimit : ∀ s id g, R s { s with limitOrders := s.limitOrders.modify id g }
  eraseLimit : ∀ s id, R s { s with limitOrders := s.limitOrders.erase id }

namespace ChangeFrame

variable {R : Books → Books → Prop} (hR : ChangeFrame R)
include hR

theorem programs : Passing fun _ (x : LedgerM _) => Keeps R x := hR.passing

/-! ### Accounts and fees -/

theorem adjustBalance (account : ℕ) (delta : Asset) : Keeps R (adjustBalance account delta) := by
  have hP := hR.programs
  refine hP.ite (hP.pure ()) (hP.get_bind fun s => ?_)
  split
  · exact hP.assert_bind (keeps_update fun s => hR.balances s _)
  · exact hP.assert_bind (keeps_update fun s => hR.balances s _)

theorem modifyStatistics (account : ℕ) (g : AccountStatistics → AccountStatistics) :
    Keeps R (modifyStatistics account g) :=
  hR.programs.get_bind fun _ => hR.programs.require_bind fun _ => keeps_update fun s => hR.statistics s _

theorem modifyDynamicData (assetId : ℕ) (g : AssetDynamicData → AssetDynamicData) :
    Keeps R (modifyDynamicData assetId g) :=
  hR.programs.get_bind fun _ => hR.programs.require_bind fun _ => keeps_update fun s => hR.dynamicData s _

theorem payFee (account : ℕ) (coreFeePaid : ℤ) : Keeps R (payFee account coreFeePaid) :=
  hR.programs.get_bind fun _ => hR.modifyStatistics account _

theorem payMarketFees (receives : Asset) : Keeps R (payMarketFees receives) := by
  have hP := hR.programs
  refine hP.get_bind fun _ => hP.require_bind fun _ => hP.lift_bind fun fee =>
    hP.bind ?_ fun _ => hP.pure _
  exact hP.ite (hR.modifyDynamicData _ _) (hP.pure ())

theorem payOrder (receiver : ℕ) (receives pays : Asset) : Keeps R (payOrder receiver receives pays) :=
  hR.programs.bind (hR.modifyStatistics receiver _) fun _ => hR.adjustBalance receiver receives

/-! ### Orders -/

theorem cancelLimitOrder (id : ℕ) : Keeps R (cancelLimitOrder id) := by
  have hP := hR.programs
  exact hP.get_bind fun _ => hP.require_bind fun _ => hP.bind (hR.modifyStatistics _ _) fun _ =>
    hP.bind (hR.adjustBalance _ _) fun _ => hP.bind (hR.adjustBalance _ _) fun _ =>
      keeps_update fun s => hR.eraseLimit s id

theorem reduceLimitOrder (id : ℕ) (order : LimitOrder) (pays : Asset) (cull : Bool) :
    Keeps R (reduceLimitOrder id order pays cull) := by
  have hP := hR.programs
  refine hP.ite (hP.bind (keeps_update fun s => hR.eraseLimit s id) fun _ => hP.pure _) ?_
  refine hP.bind (keeps_update fun s => hR.modifyLimit s id _) fun _ => hP.ite ?_ (hP.pure _)
  -- what is left may be culled
  exact hP.get_bind fun _ => hP.require_bind fun _ => hP.lift_bind fun _ =>
    hP.ite (hP.bind (hR.cancelLimitOrder id) fun _ => hP.pure _) (hP.pure _)

theorem fillLimitOrder (id : ℕ) (pays receives : Asset) (cull : Bool) :
    Keeps R (fillLimitOrder id pays receives cull) := by
  have hP := hR.programs
  refine hP.get_bind fun _ => hP.require_bind fun order => hP.assert_bind <| hP.assert_bind <|
    hP.bind (hR.payMarketFees _) fun _ => hP.bind (hR.payOrder _ _ _) fun _ => hP.bind ?_ fun _ =>
      hR.reduceLimitOrder id order pays _
  exact hP.ite (hR.payFee _ _) (hP.pure ())

theorem fillCallOrder (id : ℕ) (pays receives : Asset) : Keeps R (fillCallOrder id pays receives) := by
  have hP := hR.programs
  have hrelease : ∀ borrower freed, Keeps R (releaseCollateral borrower pays freed) := by
    intro borrower freed
    cases freed with
    | none => exact hP.ite (hR.modifyStatistics _ _) (hP.pure ())
    | some a => exact hP.bind (hR.adjustBalance _ _) fun _ => hR.modifyStatistics _ _
  have hremove : ∀ freed, Keeps R (removeCallOrder id freed) := by
    intro freed
    cases freed with
    | none => exact hP.pure _
    | some a => exact hP.bind (keeps_update fun s => hR.callOrders s _) fun _ => hP.pure _
  exact hP.get_bind fun _ => hP.require_bind fun _ => hP.assert_bind <| hP.assert_bind <| hP.assert_bind <|
    hP.bind (keeps_update fun s => hR.callOrders s _) fun _ =>
      hP.bind (hR.modifyDynamicData _ _) fun _ => hP.bind (hrelease _ _) fun _ => hremove _

/-- **The code that fills orders** keeps the relation, whatever its outcome. -/
theorem rules : FillRules fun _ x => Keeps R x where
  toPassing := hR.programs
  cancelLimitOrder := hR.cancelLimitOrder
  fillLimitOrder := hR.fillLimitOrder
  fillCallOrder := hR.fillCallOrder
  settlement _ _ _ := keeps_update fun s => hR.bitassets s _
  modifyDynamicData _ := hR.modifyDynamicData _ _

/-! ### Operations -/

theorem evaluator {ρ : Type} {S : Settings} {e : Evaluator ρ} (skip : Bool) (hread : Keeps R e.doEvaluate)
    (hpay : ∀ f, Keeps R (e.payFee f)) (happly : ∀ f m, Keeps R (e.doApply f m)) : Keeps R (e.run S skip) := by
  have hP := hR.programs
  have hconvert : ∀ f, Keeps R (convertFee e.fee f) := fun f =>
    hP.ite (hP.pure ()) (hR.modifyDynamicData _ _)
  exact hP.bind (prepareFee_passing hP S _ _) fun f => hP.get_bind fun _ => hP.assert_bind <|
    hP.bind hread fun m => hP.bind (hconvert _) fun _ => hP.bind (hpay _) fun _ =>
      hP.bind (happly _ m) fun _ => hR.adjustBalance _ _

theorem limitOrderCreate_payFee (op : LimitOrderCreate) (f : ℤ) : Keeps R (op.payFee f) :=
  hR.programs.get_bind fun _ => hR.programs.ite (hR.payFee _ f) (hR.programs.pure ())

theorem callBothAssets (order : LimitOrder) : Keeps R order.callBothAssets :=
  hR.programs.get_bind fun _ => hR.programs.require_bind fun _ =>
    hR.programs.bind (hR.rules.checkCallOrders _ _) fun _ => hR.programs.get_bind fun _ =>
      hR.programs.require_bind fun _ => hR.programs.bind (hR.rules.checkCallOrders _ _) fun _ => hR.programs.pure _

theorem limitOrderCancel {S : Settings} (op : LimitOrderCancel) (skip : Bool) :
    Keeps R (op.evaluator.run S skip) := by
  have hP := hR.programs
  refine hR.evaluator skip ?_ (fun f => hR.payFee _ f) fun _ _ => ?_
  · exact hP.get_bind fun _ => hP.require_bind fun _ => hP.assert_bind (hP.pure _)
  · exact hP.bind (hR.cancelLimitOrder _) fun _ => hR.callBothAssets _

end ChangeFrame

end FinChain.Ledger
