import FinChain.Ledger.MarketFrames

/-!
# Events as actions

Every operation, the loops over expired orders and feeds, and the maintenance are sequences of
actions (`Event.actions`). The proofs follow the code from statement to statement. Nothing has to be
known about the books, but for a position that is changed: its collateral is in the asset that backs
the bitasset, because the books are sound.

A `Traced` run is a run of accepted events whose actions meet a condition.
-/

namespace FinChain.Ledger

open Exec

variable {S : Settings}

/-! ### Orders -/

/-- The action belongs to the event. -/
def Action.Of (e : Event) : Action → Prop
  | place op => e = .operation (.limitOrderCreate op)
  | position op _ => e = .operation (.callOrderUpdate op)
  | close _ => ∃ op, e = .operation (.callOrderUpdate op)
  | newBitasset _ _ => ∃ op, e = .operation (.assetCreate op)
  | lock op => e = .operation (.lock op)
  | _ => True

theorem Action.Plain.of {a : Action} (h : a.Plain) (e : Event) : a.Of e := by
  cases a with
  | quiet | cancel | fillLimit | fillCall | bitasset => trivial
  | place | position | close | newBitasset | lock => cases h

theorem Actions.of_acts {s s' : Books} (h : Acts S s s') (e : Event) :
    Actions S (fun _ a => a.Of e) s s' :=
  h.mono fun ha => ha.of e

/-- An evaluator of an event that does not only fill orders. -/
theorem actions_run {ρ : Type} {e : Evaluator ρ} {event : Event} {skip : Bool} {s s' : Books} {u : Unit}
    (hread : ∀ {m s₁}, e.doEvaluate s = .ok m s₁ → s₁ = s) (hpay : ∀ f, KeepsOk Quiet (e.payFee f))
    (happly : ∀ {f m s₁ s₂ u}, e.doEvaluate s = .ok m s → Quiet s s₁ → e.doApply f m s₁ = .ok u s₂ →
      Actions S (fun _ a => a.Of event) s₁ s₂)
    (h : e.run S skip s = .ok u s') : Actions S (fun _ a => a.Of event) s s' := by
  obtain ⟨f, m, s₁, s₂, s₃, s₄, -, hevaluate, hconvert, hpaid, happlied, hfee⟩ := Evaluator.run_ok h
  obtain rfl := hread hevaluate
  have hquiet : Quiet s₁ s₃ :=
    quietFrame.trans (quiet_convertFee _ _ _ _ _ hconvert) (hpay _ _ _ _ hpaid)
  have hlast : Quiet s₄ s' := quiet_adjustBalance _ _ _ _ _ hfee
  exact .step (.quiet hquiet) trivial
    ((happly hevaluate hquiet happlied).trans (.single (.quiet hlast) trivial))

theorem LimitOrderCreate.quiet_payFee (op : LimitOrderCreate) (f : ℤ) : KeepsOk Quiet (op.payFee f) :=
  quietFrame.keepsOk_get_bind fun _ =>
    keepsOk_ite (Ledger.quiet_payFee _ _) (quietFrame.keepsOk_pure ())

theorem LimitOrderCreate.actions {op : LimitOrderCreate} {s s' : Books} {u : Unit}
    (h : (op.evaluator S).run S false s = .ok u s') :
    Actions S (fun _ a => a.Of (.operation (.limitOrderCreate op))) s s' := by
  refine actions_run (e := op.evaluator S) doEvaluate_read op.quiet_payFee ?_ h
  intro f m s₁ s₂ v _ _ happly
  obtain ⟨_, t₁, hstatistics, happly⟩ := bind_eq_ok.mp happly
  obtain ⟨_, t₂, hsell, happly⟩ := bind_eq_ok.mp happly
  obtain ⟨orderId, t₃, hcreate, happly⟩ := bind_eq_ok.mp happly
  have hplace : op.place f s₁ = .ok orderId t₃ :=
    bind_eq_ok.mpr ⟨_, t₁, hstatistics, bind_eq_ok.mpr ⟨_, t₂, hsell, hcreate⟩⟩
  refine Actions.step (.place hplace) rfl (Actions.of_acts ?_ _)
  exact actsFrame.keepsOk_bind (acts_marketFrame.filling.applyOrder _ _)
    (fun _ => actsFrame.keepsOk_assert _ _) t₃ v s₂ happly

theorem acts_checkCallOrders (mia : ℕ) (enable : Bool) : KeepsOk (Acts S) (checkCallOrders mia enable) :=
  acts_marketFrame.filling.checkCallOrders mia enable

/-- The last checks; a position without debt is closed. -/
theorem CallOrderUpdate.actions_closeOrCheck {op : CallOrderUpdate} {b : BitassetData} {id : ℕ}
    {s s' : Books} {u : Unit} (h : op.closeOrCheck b id s = .ok u s') :
    Actions S (fun _ a => a.Of (.operation (.callOrderUpdate op))) s s' ∧
      ∀ o, s.callOrders.lookup id = some o →
        o.debt = 0 ∧ o.collateral = 0 ∨ 0 < o.debt ∧ 0 < o.collateral := by
  unfold closeOrCheck at h
  rw [get_bind] at h
  obtain ⟨order, horder, h⟩ := require_bind_eq_ok.mp h
  split at h
  · next hdebt =>
    obtain ⟨hcollateral, h⟩ := assert_bind_eq_ok.mp h
    obtain rfl := update_eq_ok.mp h
    refine ⟨.single (.close horder hdebt hcollateral) ⟨op, rfl⟩, ?_⟩
    intro o ho
    rw [horder] at ho
    cases ho
    exact .inl ⟨hdebt, hcollateral⟩
  · obtain ⟨⟨hcollateral, hdebt⟩, h⟩ := assert_bind_eq_ok.mp h
    have hmargin : KeepsOk (Acts S) (op.checkMargin b id) :=
      actsFrame.keepsOk_bind (acts_checkCallOrders _ _) fun _ => actsFrame.keepsOk_get_bind fun _ =>
        keepsOk_ite (actsFrame.keepsOk_assert _ _)
          (actsFrame.keepsOk_require_bind fun _ => actsFrame.keepsOk_assert _ _)
    refine ⟨.of_acts (keepsOk_ite (actsFrame.keepsOk_pure ()) hmargin s u s' h) _, ?_⟩
    intro o ho
    rw [horder] at ho
    cases ho
    exact .inr ⟨hdebt, hcollateral⟩

theorem CallOrderUpdate.actions_doApply {op : CallOrderUpdate} {b : BitassetData} {s s' : Books}
    {u : Unit} (hb : s.bitassets.lookup op.deltaDebt.assetId = some b)
    (hbacking : ∀ i o, s.findCall op.fundingAccount op.deltaDebt.assetId = some (i, o) →
      o.callPrice.base.assetId = op.deltaCollateral.assetId)
    (h : op.doApply b s = .ok u s') :
    Actions S (fun _ a => a.Of (.operation (.callOrderUpdate op))) s s' := by
  unfold doApply at h
  obtain ⟨_, s₁, hdebt, h⟩ := bind_eq_ok.mp h
  obtain ⟨_, s₂, hcollateral, h⟩ := bind_eq_ok.mp h
  rw [get_bind] at h
  obtain ⟨id, s₃, hchange, h⟩ := bind_eq_ok.mp h
  have hposition : op.position b s = .ok id s₃ := by
    refine bind_eq_ok.mpr ⟨_, s₁, hdebt, bind_eq_ok.mpr ⟨_, s₂, hcollateral, ?_⟩⟩
    rw [get_bind]
    exact hchange
  obtain ⟨hactions, hend⟩ := actions_closeOrCheck (S := S) h
  exact Actions.step (.position hb hbacking hposition hend) rfl hactions

/-- The collateral of the operation is in the asset of the position, since the books are sound. -/
theorem CallOrderUpdate.actions {op : CallOrderUpdate} {s s' : Books} {u : Unit} (hs : Sound s)
    (h : op.evaluator.run S false s = .ok u s') :
    Actions S (fun _ a => a.Of (.operation (.callOrderUpdate op))) s s' := by
  refine actions_run (e := op.evaluator) (fun hread => (doEvaluate_ok hread).1) (quiet_payFee _) ?_ h
  intro f b s₁ s₂ v hevaluate hquiet happly
  obtain ⟨-, hb, -, hbacking⟩ := doEvaluate_ok hevaluate
  refine actions_doApply ?_ ?_ happly
  · rw [hquiet.bitassets]
    exact hb
  · intro i o ho
    obtain ⟨ho, htype⟩ := Books.findCall_ok ho
    rw [hquiet.callOrders] at ho
    obtain ⟨b', hb', -, hbase⟩ := (hs.calls i o ho).2
    rw [htype, hb] at hb'
    cases hb'
    rw [← hbase, hbacking]

/-! ### Assets and feeds -/

theorem AssetCreate.actions_doApply {op : AssetCreate} {f : ℤ} {s s' : Books} {u : Unit}
    (h : op.doApply f s = .ok u s') :
    Actions S (fun _ a => a.Of (.operation (.assetCreate op))) s s' := by
  unfold doApply at h
  obtain rfl := update_eq_ok.mp h
  obtain ⟨-, hdata, hbitassets⟩ := s.lookup_nextAssetId
  -- first the asset and its dynamic data, then the bitasset data
  let s₁ : Books := { s with
    dynamicData := s.dynamicData.insert s.nextAssetId
      { currentSupply := 0, accumulatedFees := 0, feePool := f, lockedBalance := 0 }
    assets := s.assets.insert s.nextAssetId
      { issuer := op.issuer
        precision := op.precision
        options := { op.commonOptions with coreExchangeRate := op.exchangeRate s.nextAssetId } } }
  have hquiet : Quiet s s₁ := by
    refine ⟨⟨rfl, rfl, rfl, ?_, rfl⟩, ⟨rfl, rfl, rfl, rfl⟩⟩
    have hzero : s.lockedTotal s.nextAssetId = 0 := by
      unfold Books.lockedTotal
      rw [hdata, Option.map_none, Option.getD_none]
    change Books.lockedTotal { s with dynamicData := s.dynamicData.insert s.nextAssetId _ } = _
    rw [Books.lockedTotal_insert]
    change Function.update s.lockedTotal s.nextAssetId 0 = _
    rw [← hzero, Function.update_eq_self]
  refine Actions.step (.quiet hquiet) trivial ?_
  rcases op.bitassets_eq s.nextAssetId s.bitassets with heq | ⟨b, heq, -⟩
  · rw [heq]
    exact .refl s₁
  · rw [heq]
    exact .single (.newBitasset (s := s₁) hbitassets) ⟨op, rfl⟩

theorem AssetPublishFeed.acts_doApply (op : AssetPublishFeed) : KeepsOk (Acts S) op.doApply := by
  refine actsFrame.keepsOk_get_bind fun _ => actsFrame.keepsOk_require_bind fun _ =>
    actsFrame.keepsOk_bind (acts_modifyBitasset _ _) fun _ => ?_
  exact actsFrame.keepsOk_get_bind fun _ => actsFrame.keepsOk_require_bind fun _ =>
    keepsOk_ite (actsFrame.keepsOk_pure ()) <|
      actsFrame.keepsOk_bind (acts_checkCallOrders _ _) fun _ => actsFrame.keepsOk_pure _

theorem acts_updateFeedsOf (ids : List ℕ) : KeepsOk (Acts S) (updateFeedsOf ids) := by
  induction ids with
  | nil => exact actsFrame.keepsOk_pure ()
  | cons id ids ih =>
    refine actsFrame.keepsOk_get_bind fun _ => actsFrame.keepsOk_require_bind fun _ =>
      actsFrame.keepsOk_bind ?_ fun _ =>
        actsFrame.keepsOk_bind (acts_marketFrame.followRate _) fun _ => ih
    unfold expireFeed
    refine keepsOk_ite ?_ (actsFrame.keepsOk_pure ())
    exact actsFrame.keepsOk_get_bind fun _ => actsFrame.keepsOk_bind (acts_modifyBitasset _ _) fun _ =>
      actsFrame.keepsOk_get_bind fun _ => actsFrame.keepsOk_require_bind fun _ =>
        actsFrame.keepsOk_require_bind fun _ =>
          actsFrame.keepsOk_bind (acts_checkCallOrders _ _) fun _ => actsFrame.keepsOk_pure _

theorem acts_updateExpiredFeeds : KeepsOk (Acts S) updateExpiredFeeds :=
  actsFrame.keepsOk_get_bind fun _ => acts_updateFeedsOf _

/-! ### Events -/

/-- **What an operation does**, as actions. -/
theorem Operation.actions {op : Operation} {s s' : Books} {u : Unit} (hs : Sound s)
    (h : op.run S s = .ok u s') : Actions S (fun _ a => a.Of (.operation op)) s s' := by
  have hpay : ∀ account f, KeepsOk (Acts S) (payFee account f) := acts_marketFrame.payFee
  cases op with
  | limitOrderCreate op =>
    obtain ⟨-, h⟩ := assert_bind_eq_ok.mp h
    exact op.actions h
  | callOrderUpdate op =>
    obtain ⟨-, h⟩ := assert_bind_eq_ok.mp h
    exact op.actions hs h
  | assetCreate op =>
    obtain ⟨_, -, h⟩ := bind_eq_ok_of_read (fun hv => (AssetCreate.maxSupply_pos hv).1) h
    exact actions_run (e := op.evaluator S) AssetCreate.doEvaluate_read (quiet_payFee _)
      (fun _ _ happly => AssetCreate.actions_doApply happly) h
  | assetUpdateBitasset op =>
    refine .of_acts (s := s) ((?_ : KeepsOk (Acts S) _) s u s' h) _
    exact actsFrame.keepsOk_assert_bind <| acts_marketFrame.evaluator false
      (acts_marketFrame.of_read fun h => (AssetUpdateBitasset.doEvaluate_ok h).1) (hpay _)
      fun _ _ => actsFrame.keepsOk_get_bind fun _ => acts_modifyBitasset _ _
  | assetUpdateFeedProducers op =>
    refine .of_acts (s := s) ((?_ : KeepsOk (Acts S) _) s u s' h) _
    exact actsFrame.keepsOk_assert_bind <| acts_marketFrame.evaluator false
      (acts_marketFrame.of_read fun h => (AssetUpdateFeedProducers.doEvaluate_ok h).1) (hpay _)
      fun _ _ => actsFrame.keepsOk_get_bind fun _ =>
        actsFrame.keepsOk_bind (acts_modifyBitasset _ _) fun _ =>
          actsFrame.keepsOk_bind (acts_checkCallOrders _ _) fun _ => actsFrame.keepsOk_pure _
  | assetPublishFeed op =>
    refine .of_acts (s := s) ((?_ : KeepsOk (Acts S) _) s u s' h) _
    have hvalidate : KeepsOk (Acts S) op.validate :=
      acts_marketFrame.of_read fun h => (AssetPublishFeed.validate_ok h).1
    exact actsFrame.keepsOk_bind hvalidate fun _ => acts_marketFrame.evaluator false
      (acts_marketFrame.of_read AssetPublishFeed.doEvaluate_read) (hpay _) fun _ _ => op.acts_doApply
  | lock op => exact .single (.lock h) rfl
  | transfer | limitOrderCancel | assetUpdate | assetIssue | assetReserve | assetFundFeePool
  | assetSettle | assetGlobalSettle | assetClaimFees =>
    have hacts : Acts S s s' := acts_marketFrame.operation (by exact trivial) s u s' h
    exact .of_acts hacts _

theorem acts_block (time : ℕ) : KeepsOk (Acts S) ((Event.block time).run S) := by
  unfold Event.run
  exact keepsOk_update fun _ => .single (.quiet (.of_fields rfl)) trivial

/-- **Every event is a sequence of actions**, which belong to it. -/
theorem Event.actions {e : Event} {s s' : Books} {u : Unit} (hs : Sound s)
    (h : e.run S s = .ok u s') : Actions S (fun _ a => a.Of e) s s' := by
  cases e with
  | operation op => exact Operation.actions hs h
  | block time => exact .of_acts (acts_block time s u s' h) _
  | clearExpiredOrders => exact .of_acts (acts_marketFrame.clearExpiredOrders s u s' h) _
  | updateExpiredFeeds => exact .of_acts (acts_updateExpiredFeeds s u s' h) _
  | maintenance accounts parameters firstBlock =>
    exact .of_acts (acts_marketFrame.performChainMaintenance _ _ _ s u s' h) _

/-! ### Runs -/

/-- A run of accepted events whose actions meet the condition `C`. What is not modelled takes part in
it as steps beside the market that are quiet. -/
inductive Traced (S : Settings) (C : Books → Action → Prop) : Books → Books → Prop
  | refl (s : Books) : Traced S C s s
  | event {s s₁ s₂ : Books} {e : Event} (hs : Traced S C s s₁) (h : e.run S s₁ = .ok () s₂)
      (hacts : Actions S C s₁ s₂) (hfits : s₂.Fits) : Traced S C s s₂
  | beside {s s₁ s₂ : Books} (hs : Traced S C s s₁) (h : Beside s₁ s₂) (hquiet : Quiet s₁ s₂)
      (hfits : s₂.Fits) : Traced S C s s₂

namespace Traced

variable {C : Books → Action → Prop} {s s' : Books}

theorem trans {s₁ : Books} (h : Traced S C s s₁) (h' : Traced S C s₁ s') : Traced S C s s' := by
  induction h' with
  | refl => exact h
  | event _ he hacts hfits ih => exact ih.event he hacts hfits
  | beside _ hb hquiet hfits ih => exact ih.beside hb hquiet hfits

/-- A traced run is a run. -/
theorem steps (h : Traced S C s s') : Steps S (fun _ _ => True) Beside s s' := by
  induction h with
  | refl => exact .refl s
  | event _ he _ hfits ih => exact ih.event trivial he hfits
  | beside _ hb _ hfits ih => exact ih.beside hb hfits

theorem regular (hgenesis : Genesis s) (h : Traced S C s s') : Regular s' ∧ s'.Fits :=
  Reachable.regular ⟨s, hgenesis, h.steps⟩

/-- The rule for invariants. -/
theorem keep {I : Books → Prop} (hI : ∀ {s a s'}, C s a → Does S a s s' → I s → I s')
    (hquiet : ∀ {s s'}, Quiet s s' → I s → I s') (h : Traced S C s s') (hs : I s) : I s' := by
  induction h with
  | refl => exact hs
  | event _ _ hacts _ ih => exact hacts.keep hI ih
  | beside _ _ hq _ ih => exact hquiet hq ih

/-- Every event that is accepted continues a run without a condition. -/
theorem accept {s₁ : Books} {e : Event} (hgenesis : Genesis s) (h : Traced S (fun _ _ => True) s s₁)
    (he : e.run S s₁ = .ok () s') (hfits : s'.Fits) : Traced S (fun _ _ => True) s s' :=
  h.event he ((Event.actions (h.regular hgenesis).1.toSound he).mono fun _ => trivial) hfits

/-- A run of the small chain. -/
theorem afterEvents {e : Event} {es : List Event}
    (hs : Traced smallSettings (fun _ _ => True) smallChain (Ledger.afterEvents es))
    (h : (e.run smallSettings).run' (Ledger.afterEvents es) = some ())
    (hfits : (Ledger.afterEvents (e :: es)).Fits) :
    Traced smallSettings (fun _ _ => True) smallChain (Ledger.afterEvents (e :: es)) :=
  hs.accept genesis_smallChain (run_afterEvents _ h) hfits

end Traced

end FinChain.Ledger
