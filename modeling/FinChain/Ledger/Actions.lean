import FinChain.Ledger.Events

/-!
# The actions of the code

An event is made of many small actions: orders are created, filled and cancelled, positions are
opened and changed, feeds are updated, and in between balances, fees and supplies are adjusted. For
some properties it matters which of these actions were taken and with which amounts, and postings do
not tell. Here the actions are the calls of the code themselves: `Does (.fillCall id pays receives)`
is a run of `fill_order`, and so on. What concerns neither orders nor bitassets nor locked balances is
`Quiet`.

`Actions S C` is a sequence of actions, each of which meets a condition `C` on the action and on the
books before it. Every accepted event is such a sequence (`Event.actions`, in the next module), so an
invariant of the actions is an invariant of the chain; and where the code keeps an invariant under a
condition only, the condition can be stated about the one action that needs it. Orders are filled and
cancelled, and bitassets change, in many events (`Action.Plain`); any other action belongs to one kind
of operation.
-/

namespace FinChain.Ledger

open Exec

/-! ### Quiet steps -/

/-- `total_core_in_orders` of an account. -/
def Books.coreInOrders (s : Books) (account : ℕ) : ℤ :=
  ((s.statistics.lookup account).map AccountStatistics.totalCoreInOrders).getD 0

/-- `locked_balance` of the dynamic data of an asset. -/
def Books.lockedTotal (s : Books) (k : ℕ) : ℤ :=
  ((s.dynamicData.lookup k).map AssetDynamicData.lockedBalance).getD 0

/-- A step that leaves locked balances alone. -/
structure OffLocks (s s' : Books) : Prop where
  lockedBalances : s'.lockedBalances = s.lockedBalances
  lockData : s'.lockData = s.lockData
  lockeds : lockedsAt s'.balances = lockedsAt s.balances
  lockedTotal : s'.lockedTotal = s.lockedTotal
  payouts : s'.payouts = s.payouts

/-- A step that leaves orders and bitassets alone. -/
structure OffOrders (s s' : Books) : Prop where
  limitOrders : s'.limitOrders = s.limitOrders
  callOrders : s'.callOrders = s.callOrders
  bitassets : s'.bitassets = s.bitassets
  coreInOrders : s'.coreInOrders = s.coreInOrders

/-- A step that leaves orders, bitassets and locked balances alone. -/
structure Quiet (s s' : Books) : Prop extends OffLocks s s', OffOrders s s'

theorem offLocksFrame : Frame OffLocks where
  refl _ := ⟨rfl, rfl, rfl, rfl, rfl⟩
  trans h h' := ⟨h'.lockedBalances.trans h.lockedBalances, h'.lockData.trans h.lockData,
    h'.lockeds.trans h.lockeds, h'.lockedTotal.trans h.lockedTotal, h'.payouts.trans h.payouts⟩

theorem offOrdersFrame : Frame OffOrders where
  refl _ := ⟨rfl, rfl, rfl, rfl⟩
  trans h h' := ⟨h'.limitOrders.trans h.limitOrders, h'.callOrders.trans h.callOrders,
    h'.bitassets.trans h.bitassets, h'.coreInOrders.trans h.coreInOrders⟩

theorem quietFrame : Frame Quiet where
  refl s := ⟨offLocksFrame.refl s, offOrdersFrame.refl s⟩
  trans h h' := ⟨offLocksFrame.trans h.toOffLocks h'.toOffLocks,
    offOrdersFrame.trans h.toOffOrders h'.toOffOrders⟩

/-- The fields that matter are the same. -/
theorem Quiet.of_fields {s s' : Books}
    (h : s' = { s' with
      limitOrders := s.limitOrders, callOrders := s.callOrders, bitassets := s.bitassets
      statistics := s.statistics, dynamicData := s.dynamicData, balances := s.balances
      lockedBalances := s.lockedBalances, lockData := s.lockData, payouts := s.payouts }) :
    Quiet s s' := by
  rw [h]
  exact ⟨⟨rfl, rfl, rfl, rfl, rfl⟩, ⟨rfl, rfl, rfl, rfl⟩⟩

theorem Books.coreInOrders_insert {s : Books} {account : ℕ} (a : AccountStatistics) :
    Books.coreInOrders { s with statistics := s.statistics.insert account a } =
      Function.update s.coreInOrders account a.totalCoreInOrders := by
  funext account'
  unfold Books.coreInOrders
  by_cases h : account' = account
  · rw [h, AList.lookup_insert, Function.update_self, Option.map_some, Option.getD_some]
  · rw [AList.lookup_insert_ne h, Function.update_of_ne h]

theorem Books.coreInOrders_of_lookup {s : Books} {account : ℕ} {a : AccountStatistics}
    (h : s.statistics.lookup account = some a) : s.coreInOrders account = a.totalCoreInOrders := by
  unfold coreInOrders
  rw [h, Option.map_some, Option.getD_some]

theorem Books.lockedTotal_insert {s : Books} {k : ℕ} (d : AssetDynamicData) :
    Books.lockedTotal { s with dynamicData := s.dynamicData.insert k d } =
      Function.update s.lockedTotal k d.lockedBalance := by
  funext k'
  unfold Books.lockedTotal
  by_cases h : k' = k
  · rw [h, AList.lookup_insert, Function.update_self, Option.map_some, Option.getD_some]
  · rw [AList.lookup_insert_ne h, Function.update_of_ne h]

theorem Books.lockedTotal_of_lookup {s : Books} {k : ℕ} {d : AssetDynamicData}
    (h : s.dynamicData.lookup k = some d) : s.lockedTotal k = d.lockedBalance := by
  unfold lockedTotal
  rw [h, Option.map_some, Option.getD_some]

theorem quiet_adjustBalance (account : ℕ) (delta : Asset) :
    KeepsOk Quiet (adjustBalance account delta) := by
  intro s u s' h
  obtain ⟨t, rfl, -, hlockeds⟩ := adjustBalance_ok h
  exact ⟨⟨rfl, rfl, hlockeds, rfl, rfl⟩, ⟨rfl, rfl, rfl, rfl⟩⟩

/-- Statistics other than `total_core_in_orders`. -/
theorem quiet_modifyStatistics {account : ℕ} {g : AccountStatistics → AccountStatistics}
    (hg : ∀ a, (g a).totalCoreInOrders = a.totalCoreInOrders) :
    KeepsOk Quiet (modifyStatistics account g) := by
  intro s u s' h
  obtain ⟨a, ha, rfl⟩ := modifyStatistics_ok h
  refine ⟨⟨rfl, rfl, rfl, rfl, rfl⟩, ⟨rfl, rfl, rfl, ?_⟩⟩
  rw [Books.coreInOrders_insert, hg, ← Books.coreInOrders_of_lookup ha, Function.update_eq_self]

/-- Dynamic data other than `locked_balance`. -/
theorem quiet_modifyDynamicData {k : ℕ} {g : AssetDynamicData → AssetDynamicData}
    (hg : ∀ d, (g d).lockedBalance = d.lockedBalance) : KeepsOk Quiet (modifyDynamicData k g) := by
  intro s u s' h
  obtain ⟨d, hd, rfl⟩ := modifyDynamicData_ok h
  refine ⟨⟨rfl, rfl, rfl, ?_, rfl⟩, ⟨rfl, rfl, rfl, rfl⟩⟩
  rw [Books.lockedTotal_insert, hg, ← Books.lockedTotal_of_lookup hd, Function.update_eq_self]

theorem AccountStatistics.payFee_totalCoreInOrders (threshold f : ℤ) (a : AccountStatistics) :
    (a.payFee threshold f).totalCoreInOrders = a.totalCoreInOrders := by
  unfold AccountStatistics.payFee
  split
  · rfl
  · rfl

/-- A relation that passes along the code that touches neither orders nor bitassets nor locked
balances. -/
structure QuietFrame (R : Books → Books → Prop) : Prop extends Frame R where
  adjustBalance : ∀ account delta, KeepsOk R (adjustBalance account delta)
  modifyStatistics : ∀ {account : ℕ} {g : AccountStatistics → AccountStatistics},
    (∀ a, (g a).totalCoreInOrders = a.totalCoreInOrders) → KeepsOk R (modifyStatistics account g)
  modifyDynamicData : ∀ {k : ℕ} {g : AssetDynamicData → AssetDynamicData},
    (∀ d, (g d).lockedBalance = d.lockedBalance) → KeepsOk R (modifyDynamicData k g)
  rest : ∀ {s s' : Books}, s' = { s' with
    limitOrders := s.limitOrders, callOrders := s.callOrders, bitassets := s.bitassets
    statistics := s.statistics, dynamicData := s.dynamicData, balances := s.balances
    lockedBalances := s.lockedBalances, lockData := s.lockData, payouts := s.payouts
    headTime := s.headTime } → R s s'

/-- Whatever quiet steps keep passes along such code. -/
theorem QuietFrame.of_frame {R : Books → Books → Prop} (hR : Frame R)
    (hquiet : ∀ {s s'}, Quiet s s' → R s s') : QuietFrame R where
  toFrame := hR
  adjustBalance account delta s u s' h := hquiet (quiet_adjustBalance account delta s u s' h)
  modifyStatistics hg s u s' h := hquiet (quiet_modifyStatistics hg s u s' h)
  modifyDynamicData hg s u s' h := hquiet (quiet_modifyDynamicData hg s u s' h)
  rest {s s'} h := hquiet (.of_fields (by rw [h]))

namespace QuietFrame

variable {R : Books → Books → Prop} (hR : QuietFrame R)
include hR

theorem payFee (account : ℕ) (f : ℤ) : KeepsOk R (payFee account f) :=
  hR.keepsOk_get_bind fun _ => hR.modifyStatistics (AccountStatistics.payFee_totalCoreInOrders _ _)

theorem convertFee (fee : Asset) (f : ℤ) : KeepsOk R (convertFee fee f) := by
  unfold Ledger.convertFee
  exact keepsOk_ite (hR.keepsOk_pure ()) (hR.modifyDynamicData fun _ => rfl)

theorem payMarketFees (receives : Asset) : KeepsOk R (payMarketFees receives) := by
  refine hR.keepsOk_get_bind fun s => hR.keepsOk_require_bind fun a => hR.keepsOk_lift_bind fun fee =>
    hR.keepsOk_bind ?_ fun _ => hR.keepsOk_pure _
  unfold collectFee
  exact keepsOk_ite (hR.modifyDynamicData fun _ => rfl) (hR.keepsOk_pure ())

/-- Code that only reads. -/
theorem of_read {α : Type} {x : LedgerM α} (h : ∀ {s a s'}, x s = .ok a s' → s' = s) :
    KeepsOk R x := by
  intro s a s' hx
  rw [h hx]
  exact hR.refl s

/-- An evaluator does what its parts do. -/
theorem evaluator {ρ : Type} {S : Settings} {e : Evaluator ρ} (skip : Bool)
    (hread : KeepsOk R e.doEvaluate) (hpay : ∀ f, KeepsOk R (e.payFee f)) (happly : ∀ f m, KeepsOk R (e.doApply f m)) :
    KeepsOk R (e.run S skip) := by
  have hprepare : KeepsOk R (prepareFee S e.feePayer e.fee) :=
    hR.of_read fun h => (prepareFee_ok h).1.symm
  exact hR.keepsOk_bind hprepare fun f => hR.keepsOk_get_bind fun _ => hR.keepsOk_assert_bind <|
    hR.keepsOk_bind hread fun m => hR.keepsOk_bind (hR.convertFee _ _) fun _ =>
      hR.keepsOk_bind (hpay _) fun _ => hR.keepsOk_bind (happly _ m) fun _ => hR.adjustBalance _ _

end QuietFrame

theorem quiet_quietFrame : QuietFrame Quiet := .of_frame quietFrame id

theorem quiet_payFee (account : ℕ) (f : ℤ) : KeepsOk Quiet (payFee account f) :=
  quiet_quietFrame.payFee account f

theorem quiet_convertFee (fee : Asset) (f : ℤ) : KeepsOk Quiet (convertFee fee f) :=
  quiet_quietFrame.convertFee fee f

theorem quiet_payMarketFees (receives : Asset) : KeepsOk Quiet (payMarketFees receives) :=
  quiet_quietFrame.payMarketFees receives

/-! ### Operations on locked balances -/

/-- A relation that passes along the operations on locked balances: quiet steps keep it, and so does
whatever these operations change. -/
structure LockFrame (R : Books → Books → Prop) : Prop extends Frame R where
  quiet : ∀ {s s'}, Quiet s s' → R s s'
  dynamicData : ∀ s t, R s { s with dynamicData := t }
  lockData : ∀ s k d, R s { s with lockData := s.lockData.insert k d }
  lockeds : ∀ s t, R s { s with balances := t }
  create : ∀ s l, R s { s with lockedBalances := s.lockedBalances.create l }
  finish : ∀ s id payouts, R s { s with
    lockedBalances := s.lockedBalances.modify id fun l => { l with finish := true }
    payouts := payouts }

/-- The same without regard to quiet steps. -/
structure LockingFrame (R : Books → Books → Prop) : Prop extends QuietFrame R where
  dynamicData : ∀ s t, R s { s with dynamicData := t }
  lockData : ∀ s k d, R s { s with lockData := s.lockData.insert k d }
  lockeds : ∀ s t, R s { s with balances := t }
  create : ∀ s l, R s { s with lockedBalances := s.lockedBalances.create l }
  finish : ∀ s id payouts, R s { s with
    lockedBalances := s.lockedBalances.modify id fun l => { l with finish := true }
    payouts := payouts }

namespace LockingFrame

variable {R : Books → Books → Prop} (hR : LockingFrame R)
include hR

theorem modifyLockData (k : ℕ) (g : AssetLockData → AssetLockData) : KeepsOk R (modifyLockData k g) := by
  intro s u s' h
  obtain ⟨d, -, rfl⟩ := modifyLockData_ok h
  exact hR.lockData s k (g d)

theorem modifyLockeds (account k : ℕ) (g : Finset ℕ → Finset ℕ) :
    KeepsOk R (modifyLockeds account k g) := by
  intro s u s' h
  obtain ⟨t, rfl, -⟩ := modifyLockeds_ok h
  exact hR.lockeds s t

theorem pay (op : UnlockBalance) (expired : Bool) (item : LockedBalance) :
    KeepsOk R (op.pay expired item) :=
  keepsOk_ite (hR.keepsOk_bind (hR.adjustBalance _ _) fun _ => hR.keepsOk_pure _)
    (hR.keepsOk_bind (hR.adjustBalance _ _) fun _ => hR.keepsOk_bind (hR.modifyLockData _ _) fun _ =>
      hR.keepsOk_pure _)

/-- **Operations on locked balances** keep such a relation. -/
theorem run {S : Settings} (op : LockOperation) : KeepsOk R (op.run S) := by
  have hskip : KeepsOk R (pure () : LedgerM Unit) := hR.keepsOk_pure ()
  cases op with
  | setLockData op =>
    refine hR.keepsOk_assert_bind (hR.evaluator false ?_ (hR.payFee _) fun _ _ => ?_)
    · exact hR.keepsOk_get_bind fun _ => hR.keepsOk_require_bind fun _ =>
        hR.keepsOk_assert_bind <| hR.keepsOk_assert_bind <| hR.keepsOk_assert _ _
    · exact hR.keepsOk_get_bind fun _ => hR.keepsOk_assert_bind <|
        hR.keepsOk_bind (keepsOk_ite (hR.adjustBalance _ _) hskip) fun _ =>
          keepsOk_update fun s => hR.lockData s _ _
  | lockBalance op =>
    refine hR.keepsOk_assert_bind (hR.evaluator false ?_ (hR.payFee _) fun _ _ => ?_)
    · exact hR.keepsOk_get_bind fun _ => hR.keepsOk_require_bind fun _ =>
        hR.keepsOk_require_bind fun _ => hR.keepsOk_assert_bind <| hR.keepsOk_require_bind fun _ =>
          hR.keepsOk_assert_bind <| hR.keepsOk_pure _
    · exact hR.keepsOk_get_bind fun _ => hR.keepsOk_require_bind fun _ =>
        hR.keepsOk_require_bind fun _ => hR.keepsOk_bind (keepsOk_update fun s => hR.create s _) fun _ =>
          hR.keepsOk_require_bind fun _ => hR.keepsOk_bind (hR.adjustBalance _ _) fun _ =>
            hR.keepsOk_assert_bind <| hR.keepsOk_bind (hR.modifyLockeds _ _ _) fun _ =>
              hR.keepsOk_bind (hR.modifyLockData _ _) fun _ => hR.keepsOk_get_bind fun _ =>
                hR.keepsOk_require_bind fun _ => keepsOk_update fun s => hR.dynamicData s _
  | unlockBalance op =>
    refine hR.keepsOk_assert_bind (hR.evaluator false ?_ (hR.payFee _) fun _ _ => ?_)
    · exact hR.keepsOk_get_bind fun _ => hR.keepsOk_require_bind fun _ => hR.keepsOk_assert _ _
    · exact hR.keepsOk_get_bind fun _ => hR.keepsOk_require_bind fun _ =>
        hR.keepsOk_require_bind fun _ => hR.keepsOk_require_bind fun _ =>
          hR.keepsOk_assert_bind <| hR.keepsOk_lift_bind fun _ => hR.keepsOk_assert_bind <|
            hR.keepsOk_bind (hR.pay _ _ _) fun _ =>
              hR.keepsOk_bind (keepsOk_update fun s => hR.finish s _ _) fun _ =>
                hR.keepsOk_get_bind fun _ => hR.keepsOk_require_bind fun _ =>
                  hR.keepsOk_assert_bind (hR.modifyLockeds _ _ _)
  | donationBalance op =>
    refine hR.keepsOk_assert_bind (hR.evaluator false ?_ (hR.payFee _) fun _ _ => ?_)
    · exact hR.keepsOk_get_bind fun _ => hR.keepsOk_assert _ _
    · exact hR.keepsOk_get_bind fun _ => hR.keepsOk_require_bind fun _ =>
        hR.keepsOk_require_bind fun _ => hR.keepsOk_bind (hR.adjustBalance _ _) fun _ =>
          hR.modifyLockData _ _

end LockingFrame

theorem LockFrame.locking {R : Books → Books → Prop} (hR : LockFrame R) : LockingFrame R where
  toQuietFrame := .of_frame hR.toFrame hR.quiet
  dynamicData := hR.dynamicData
  lockData := hR.lockData
  lockeds := hR.lockeds
  create := hR.create
  finish := hR.finish

theorem LockFrame.run {R : Books → Books → Prop} (hR : LockFrame R) {S : Settings} (op : LockOperation) :
    KeepsOk R (op.run S) :=
  hR.locking.run op

theorem offOrders_lockFrame : LockFrame OffOrders where
  toFrame := offOrdersFrame
  quiet h := h.toOffOrders
  dynamicData _ _ := ⟨rfl, rfl, rfl, rfl⟩
  lockData _ _ _ := ⟨rfl, rfl, rfl, rfl⟩
  lockeds _ _ := ⟨rfl, rfl, rfl, rfl⟩
  create _ _ := ⟨rfl, rfl, rfl, rfl⟩
  finish _ _ _ := ⟨rfl, rfl, rfl, rfl⟩

/-! ### Actions -/

/-- The limit order of an operation is created: what it sells is taken from the seller. -/
def LimitOrderCreate.place (op : LimitOrderCreate) (coreFeePaid : ℤ) : LedgerM ℕ := do
  modifyStatistics op.seller (intoOrders op.amountToSell)
  adjustBalance op.seller op.amountToSell.neg
  op.createOrder coreFeePaid

/-- The position of an account is opened or changed: `call_order_update` before its last checks. -/
def CallOrderUpdate.position (op : CallOrderUpdate) (b : BitassetData) : LedgerM ℕ := do
  op.moveDebt
  op.moveCollateral
  let s ← get
  op.changePosition b (s.findCall op.fundingAccount op.deltaDebt.assetId)

/-- What the code can do to orders, bitassets and locked balances. -/
inductive Action
  | quiet
  | place (op : LimitOrderCreate)
  | cancel (id : ℕ)
  | fillLimit (id : ℕ) (pays receives : Asset)
  | fillCall (id : ℕ) (pays receives : Asset)
  | position (op : CallOrderUpdate) (b : BitassetData)
  /-- A position without debt and collateral is removed. -/
  | close (id : ℕ)
  | bitasset (k : ℕ) (g : BitassetData → BitassetData)
  | newBitasset (k : ℕ) (b : BitassetData)
  | lock (op : LockOperation)

/-- An action, as the code takes it. -/
inductive Does (S : Settings) : Action → Books → Books → Prop
  | quiet {s s' : Books} (h : Quiet s s') : Does S .quiet s s'
  | place {op : LimitOrderCreate} {f : ℤ} {id : ℕ} {s s' : Books} (h : op.place f s = .ok id s') :
      Does S (.place op) s s'
  | cancel {id : ℕ} {u : Unit} {s s' : Books} (h : cancelLimitOrder id s = .ok u s') :
      Does S (.cancel id) s s'
  | fillLimit {id : ℕ} {pays receives : Asset} {cull filled : Bool} {s s' : Books}
      (h : fillLimitOrder id pays receives cull s = .ok filled s') :
      Does S (.fillLimit id pays receives) s s'
  | fillCall {id : ℕ} {pays receives : Asset} {filled : Bool} {s s' : Books}
      (h : fillCallOrder id pays receives s = .ok filled s') : Does S (.fillCall id pays receives) s s'
  | position {op : CallOrderUpdate} {b : BitassetData} {id : ℕ} {s s' : Books}
      (hb : s.bitassets.lookup op.deltaDebt.assetId = some b)
      (hbacking : ∀ i o, s.findCall op.fundingAccount op.deltaDebt.assetId = some (i, o) →
        o.callPrice.base.assetId = op.deltaCollateral.assetId)
      (h : op.position b s = .ok id s')
      -- the last checks of the operation
      (hend : ∀ o, s'.callOrders.lookup id = some o →
        o.debt = 0 ∧ o.collateral = 0 ∨ 0 < o.debt ∧ 0 < o.collateral) :
      Does S (.position op b) s s'
  | close {id : ℕ} {o : CallOrder} {s : Books} (ho : s.callOrders.lookup id = some o)
      (hdebt : o.debt = 0) (hcollateral : o.collateral = 0) :
      Does S (.close id) s { s with callOrders := s.callOrders.erase id }
  | bitasset (k : ℕ) (g : BitassetData → BitassetData) (s : Books) :
      Does S (.bitasset k g) s { s with bitassets := s.bitassets.modify k g }
  | newBitasset {k : ℕ} {b : BitassetData} {s : Books} (h : s.bitassets.lookup k = none) :
      Does S (.newBitasset k b) s { s with bitassets := s.bitassets.insert k b }
  | lock {op : LockOperation} {u : Unit} {s s' : Books} (h : op.run S s = .ok u s') :
      Does S (.lock op) s s'

/-- Actions one after the other, each of which meets the condition `C`. -/
inductive Actions (S : Settings) (C : Books → Action → Prop) : Books → Books → Prop
  | refl (s : Books) : Actions S C s s
  | step {s s₁ s' : Books} {a : Action} (h : Does S a s s₁) (hC : C s a) (hs : Actions S C s₁ s') :
      Actions S C s s'

namespace Actions

variable {S : Settings} {C : Books → Action → Prop} {s s₁ s' : Books}

theorem single {a : Action} (h : Does S a s s') (hC : C s a) : Actions S C s s' :=
  .step h hC (.refl s')

theorem trans (h : Actions S C s s₁) (h' : Actions S C s₁ s') : Actions S C s s' := by
  induction h with
  | refl => exact h'
  | step hfirst hC _ ih => exact .step hfirst hC (ih h')

/-- The rule for invariants. -/
theorem keep {I : Books → Prop} (hI : ∀ {s a s'}, C s a → Does S a s s' → I s → I s')
    (h : Actions S C s s') (hs : I s) : I s' := by
  induction h with
  | refl => exact hs
  | step hfirst hC _ ih => exact ih (hI hC hfirst hs)

/-- Another condition that holds because of an invariant. -/
theorem strengthen {I : Books → Prop} {C' : Books → Action → Prop}
    (hI : ∀ {s a s'}, C s a → Does S a s s' → I s → C' s a ∧ I s') (h : Actions S C s s') (hs : I s) :
    Actions S C' s s' := by
  induction h with
  | refl => exact .refl _
  | step hfirst hC _ ih =>
    obtain ⟨hC', hs₁⟩ := hI hC hfirst hs
    exact .step hfirst hC' (ih hs₁)

theorem mono {C' : Books → Action → Prop} (hC : ∀ {s a}, C s a → C' s a) (h : Actions S C s s') :
    Actions S C' s s' :=
  h.strengthen (I := fun _ => True) (fun hc _ _ => ⟨hC hc, trivial⟩) trivial

end Actions

/-! ### The market -/

/-- An action that can happen whenever orders are filled. -/
def Action.Plain : Action → Prop
  | quiet | cancel _ | fillLimit _ _ _ | fillCall _ _ _ | bitasset _ _ => True
  | _ => False

/-- Plain actions only. -/
abbrev Acts (S : Settings) : Books → Books → Prop := Actions S fun _ a => a.Plain

section Market

variable {S : Settings}

theorem actsFrame : Frame (Acts S) where
  refl := .refl
  trans h h' := h.trans h'

/-- What an update of the price feeds would change. -/
structure SameFeeds (b b' : BitassetData) : Prop where
  options : b'.options = b.options
  feeds : b'.feeds = b.feeds
  currentFeed : b'.currentFeed = b.currentFeed
  currentFeedPublicationTime : b'.currentFeedPublicationTime = b.currentFeedPublicationTime

/-- A relation that passes along the code that fills orders and settles a bitasset globally. -/
structure FillFrame (R : Books → Books → Prop) : Prop extends QuietFrame R where
  cancelLimitOrder : ∀ id, KeepsOk R (cancelLimitOrder id)
  fillLimitOrder : ∀ id pays receives cull, KeepsOk R (fillLimitOrder id pays receives cull)
  fillCallOrder : ∀ id pays receives, KeepsOk R (fillCallOrder id pays receives)
  settlement : ∀ s mia price fund, R s { s with
    bitassets := s.bitassets.modify mia fun b => { b with settlementPrice := price, settlementFund := fund } }

/-- A relation that passes along the code that fills orders. It may look at bitassets, but does not
notice changes that leave their price feeds alone. -/
structure MarketFrame (R : Books → Books → Prop) : Prop extends QuietFrame R where
  cancelLimitOrder : ∀ id, KeepsOk R (cancelLimitOrder id)
  fillLimitOrder : ∀ id pays receives cull, KeepsOk R (fillLimitOrder id pays receives cull)
  fillCallOrder : ∀ id pays receives, KeepsOk R (fillCallOrder id pays receives)
  settlements : ∀ s t, R s { s with settlements := t }
  bitasset : ∀ {k g} s, (∀ b, SameFeeds b (g b)) → R s { s with bitassets := s.bitassets.modify k g }

theorem acts_modifyBitasset (k : ℕ) (g : BitassetData → BitassetData) :
    KeepsOk (Acts S) (modifyBitasset k g) := by
  intro s u s' h
  unfold modifyBitasset at h
  obtain rfl := update_eq_ok.mp h
  exact .single (.bitasset k g s) trivial

theorem acts_marketFrame : MarketFrame (Acts S) where
  toQuietFrame := .of_frame actsFrame fun h => .single (.quiet h) trivial
  cancelLimitOrder _ _ _ _ h := .single (.cancel h) trivial
  fillLimitOrder _ _ _ _ _ _ _ h := .single (.fillLimit h) trivial
  fillCallOrder _ _ _ _ _ _ h := .single (.fillCall h) trivial
  settlements _ _ := .single (.quiet (.of_fields rfl)) trivial
  bitasset s _ := .single (.bitasset _ _ s) trivial

end Market

/-- A property of programs that passes along the code that fills orders and settles a bitasset globally. -/
structure FillRules (P : ∀ α : Type, LedgerM α → Prop) : Prop extends Passing P where
  cancelLimitOrder : ∀ id, P Unit (cancelLimitOrder id)
  fillLimitOrder : ∀ id pays receives cull, P Bool (fillLimitOrder id pays receives cull)
  fillCallOrder : ∀ id pays receives, P Bool (fillCallOrder id pays receives)
  settlement : ∀ mia price fund, P Unit (update fun s => { s with
    bitassets := s.bitassets.modify mia fun b => { b with settlementPrice := price, settlementFund := fund } })
  modifyDynamicData : ∀ {k : ℕ} {g : AssetDynamicData → AssetDynamicData},
    (∀ d, (g d).lockedBalance = d.lockedBalance) → P Unit (modifyDynamicData k g)

namespace FillRules

variable {P : ∀ α : Type, LedgerM α → Prop} (hP : FillRules P)
include hP

theorem matchLimitOrders (usdId coreId : ℕ) (price : Price) :
    P _ (matchLimitOrders usdId coreId price) :=
  hP.get_bind fun _ => hP.require_bind fun _ =>
    hP.require_bind fun _ => hP.lift_bind fun ⟨_, _⟩ =>
      hP.bind (hP.fillLimitOrder _ _ _ _) fun _ =>
        hP.bind (hP.fillLimitOrder _ _ _ _) fun _ => hP.pure _

theorem settleCallOrders (price : Price) (ids : List ℕ) (gathered : Asset) :
    P _ (settleCallOrders price ids gathered) := by
  induction ids generalizing gathered with
  | nil => exact hP.pure _
  | cons id ids ih =>
    exact hP.get_bind fun _ => hP.require_bind fun _ =>
      hP.lift_bind fun _ => hP.lift_bind fun _ =>
        hP.bind (hP.fillCallOrder _ _ _) fun _ =>
          hP.assert_bind (ih _)

theorem globallySettleAsset (mia : ℕ) (price : Price) :
    P _ (globallySettleAsset mia price) :=
  hP.get_bind fun _ => hP.require_bind fun _ =>
    hP.assert_bind <| hP.require_bind fun _ =>
      hP.require_bind fun _ => hP.lift_bind fun _ =>
        hP.bind (hP.settleCallOrders _ _ _) fun _ =>
          hP.lift_bind fun _ => hP.bind (hP.settlement _ _ _) fun _ =>
            hP.modifyDynamicData fun _ => rfl

theorem checkForBlackswan (mia : ℕ) (enable : Bool) :
    P _ (checkForBlackswan mia enable) := by
  refine hP.get_bind fun s => ?_
  split
  · exact hP.pure _
  · refine hP.ite (hP.pure _) (hP.ite (hP.pure _) ?_)
    refine hP.lift_bind fun swan => ?_
    cases swan with
    | none => exact hP.pure _
    | some price =>
      exact hP.assert_bind <|
        hP.bind (hP.globallySettleAsset _ _) fun _ => hP.pure _

theorem marginCallRound (mia : ℕ) (b : BitassetData) (enable : Bool) (call limit : ℕ)
    (filledLimit called : Bool) :
    P _ (marginCallRound mia b enable call limit filledLimit called) := by
  refine hP.get_bind fun _ => hP.require_bind fun _ =>
    hP.require_bind fun _ => hP.lift_bind fun _ =>
      hP.ite (hP.pure _) <| hP.lift_bind fun _ =>
        hP.lift_bind fun _ => ?_
  unfold callOrSettle
  refine hP.ite ?_ ?_
  · exact hP.assert_bind <|
      hP.bind (hP.globallySettleAsset _ _) fun _ => hP.pure _
  · exact hP.lift_bind fun ⟨_, _, _, _⟩ =>
      hP.bind (hP.fillCallOrder _ _ _) fun _ =>
        hP.bind (hP.fillLimitOrder _ _ _ _) fun _ => hP.pure _

theorem marginCallLoop (mia : ℕ) (b : BitassetData) (enable : Bool) (fuel : ℕ)
    (calls limits : List ℕ) (filledLimit called : Bool) :
    P _ (marginCallLoop mia b enable fuel calls limits filledLimit called) := by
  induction fuel generalizing calls limits filledLimit called with
  | zero =>
    exact hP.bind (hP.checkForBlackswan _ _) fun _ => hP.pure _
  | succ fuel ih =>
    refine hP.bind (hP.checkForBlackswan _ _) fun settled => ?_
    split
    · exact hP.pure _
    · exact hP.pure _
    · exact hP.pure _
    · refine hP.bind (hP.marginCallRound _ _ _ _ _ _ _) fun round => ?_
      split
      · exact hP.pure _
      · exact ih _ _ _ _

theorem checkCallOrders (mia : ℕ) (enable : Bool) :
    P _ (checkCallOrders mia enable) := by
  refine hP.get_bind fun s => ?_
  split
  · exact hP.pure _
  · refine hP.bind (hP.checkForBlackswan _ _) fun settled => hP.ite
      (hP.pure _) ?_
    unfold callMargins
    refine hP.ite (hP.pure _) <| hP.get_bind fun _ =>
      hP.lift_bind fun ⟨_, _⟩ => ?_
    unfold callMarginsOf
    exact hP.ite (hP.pure _) (hP.marginCallLoop _ _ _ _ _ _ _ _)

theorem matchOrders (orderId : ℕ) (ids : List ℕ) : P _ (matchOrders orderId ids) := by
  induction ids with
  | nil => exact hP.pure ()
  | cons id ids ih =>
    exact hP.get_bind fun _ => hP.require_bind fun _ =>
      hP.bind (hP.matchLimitOrders _ _ _) fun ⟨_, _⟩ =>
        hP.ite ih (hP.pure ())

theorem maybeCullSmallOrder (id : ℕ) : P _ (maybeCullSmallOrder id) :=
  hP.get_bind fun _ => hP.require_bind fun _ =>
    hP.lift_bind fun _ => hP.ite
      (hP.bind (hP.cancelLimitOrder _) fun _ => hP.pure _)
      (hP.pure _)

theorem applyOrder (orderId : ℕ) (allow : Bool) : P _ (applyOrder orderId allow) := by
  refine hP.get_bind fun _ => hP.require_bind fun _ =>
    hP.lift_bind fun _ => hP.require_bind fun _ =>
      hP.require_bind fun _ => hP.bind (hP.checkCallOrders _ _) fun _ =>
        hP.bind (hP.checkCallOrders _ _) fun _ => hP.get_bind fun _ =>
          hP.ite (hP.pure _) ?_
  have hmatch : ∀ id price, P _ (matchNewOrder id price) := fun id price =>
    hP.get_bind fun _ => hP.lift_bind fun _ => hP.matchOrders _ _
  refine hP.bind (hmatch _ _) fun _ =>
    hP.bind (hP.checkCallOrders _ _) fun _ =>
      hP.bind (hP.checkCallOrders _ _) fun _ => hP.get_bind fun s => ?_
  split
  · exact hP.pure _
  · exact hP.ite (hP.pure _) (hP.maybeCullSmallOrder _)

end FillRules

/-- What runs keep that return. -/
theorem FillFrame.rules {R : Books → Books → Prop} (hR : FillFrame R) : FillRules fun _ x => KeepsOk R x where
  toPassing := hR.toFrame.passingOk
  cancelLimitOrder := hR.cancelLimitOrder
  fillLimitOrder := hR.fillLimitOrder
  fillCallOrder := hR.fillCallOrder
  settlement _ _ _ := keepsOk_update fun s => hR.settlement s _ _ _
  modifyDynamicData hg := hR.modifyDynamicData hg

namespace FillFrame

variable {R : Books → Books → Prop} (hR : FillFrame R)
include hR

theorem globallySettleAsset (mia : ℕ) (price : Price) : KeepsOk R (globallySettleAsset mia price) :=
  hR.rules.globallySettleAsset mia price

theorem checkCallOrders (mia : ℕ) (enable : Bool) : KeepsOk R (checkCallOrders mia enable) :=
  hR.rules.checkCallOrders mia enable

theorem applyOrder (orderId : ℕ) (allow : Bool) : KeepsOk R (applyOrder orderId allow) :=
  hR.rules.applyOrder orderId allow

end FillFrame

/-- Global settlement leaves the price feeds alone. -/
theorem MarketFrame.filling {R : Books → Books → Prop} (hR : MarketFrame R) : FillFrame R where
  toQuietFrame := hR.toQuietFrame
  cancelLimitOrder := hR.cancelLimitOrder
  fillLimitOrder := hR.fillLimitOrder
  fillCallOrder := hR.fillCallOrder
  settlement s _ _ _ := hR.bitasset s fun _ => ⟨rfl, rfl, rfl, rfl⟩

namespace MarketFrame

variable {R : Books → Books → Prop} (hR : MarketFrame R)
include hR

theorem modifyBitasset {k : ℕ} {g : BitassetData → BitassetData} (hg : ∀ b, SameFeeds b (g b)) :
    KeepsOk R (modifyBitasset k g) :=
  keepsOk_update fun s => hR.bitasset s hg

theorem cancelSettlement (id : ℕ) : KeepsOk R (cancelSettlement id) :=
  hR.keepsOk_get_bind fun _ => hR.keepsOk_require_bind fun _ =>
    hR.keepsOk_bind (hR.adjustBalance _ _) fun _ =>
      keepsOk_update fun s => hR.settlements s _

theorem fillSettlement (id : ℕ) (pays receives : Asset) :
    KeepsOk R (fillSettlement id pays receives) := by
  refine hR.keepsOk_get_bind fun _ => hR.keepsOk_require_bind fun _ =>
    hR.keepsOk_bind (hR.payMarketFees _) fun _ => hR.keepsOk_lift_bind fun _ =>
      hR.keepsOk_bind ?_ fun _ => hR.keepsOk_bind (hR.adjustBalance _ _) fun _ =>
        hR.keepsOk_bind ?_ fun _ => hR.keepsOk_pure _
  · unfold reduceSettlement
    exact keepsOk_ite (hR.keepsOk_pure ())
      (keepsOk_update fun s => hR.settlements s _)
  · unfold removeSettlement
    exact keepsOk_ite (keepsOk_update fun s => hR.settlements s _)
      (hR.keepsOk_pure ())

theorem matchSettlement (callId settleId : ℕ) (price : Price) (maxSettlement : Asset) :
    KeepsOk R (matchSettlement callId settleId price maxSettlement) :=
  hR.keepsOk_get_bind fun _ => hR.keepsOk_require_bind fun _ =>
    hR.keepsOk_require_bind fun _ => hR.keepsOk_assert_bind <|
      hR.keepsOk_assert_bind <| hR.keepsOk_lift_bind fun _ =>
        hR.keepsOk_lift_bind fun _ => hR.keepsOk_lift_bind fun _ =>
          hR.keepsOk_lift_bind fun _ => hR.keepsOk_assert_bind <|
            hR.keepsOk_bind (hR.fillCallOrder _ _ _) fun _ =>
              hR.keepsOk_bind (hR.fillSettlement _ _ _) fun _ => hR.keepsOk_pure _

end MarketFrame

end FinChain.Ledger
