import FinChain.Ledger.EventActions

/-!
# What actions leave alone

Filling, placing and cancelling limit orders changes limit orders and statistics and is quiet
otherwise, and so does whatever happens to call orders, besides those. A relation that does not look
at these passes along the actions (`OrderFrame`, `PositionFrame`). Two such relations are needed: that
call orders stay, and that locked balances stay.
-/

namespace FinChain.Ledger

open Exec

variable {S : Settings}

/-! ### Frames -/

/-- A relation that looks neither at statistics nor at limit orders. -/
structure OrderFrame (R : Books → Books → Prop) : Prop extends Frame R where
  quiet : ∀ {s s'}, Quiet s s' → R s s'
  statistics : ∀ s t, R s { s with statistics := t }
  limitOrders : ∀ s t, R s { s with limitOrders := t }

/-- A relation that does not look at call orders, either. -/
structure PositionFrame (R : Books → Books → Prop) : Prop extends OrderFrame R where
  callOrders : ∀ s t, R s { s with callOrders := t }

/-- What the first of these needs, without regard to quiet steps. -/
structure BookFrame (R : Books → Books → Prop) : Prop extends QuietFrame R where
  statistics : ∀ s t, R s { s with statistics := t }
  limitOrders : ∀ s t, R s { s with limitOrders := t }

theorem OrderFrame.book {R : Books → Books → Prop} (hR : OrderFrame R) : BookFrame R where
  toQuietFrame := .of_frame hR.toFrame hR.quiet
  statistics := hR.statistics
  limitOrders := hR.limitOrders

namespace BookFrame

variable {R : Books → Books → Prop} (hR : BookFrame R)
include hR

theorem intoStatistics (account : ℕ) (g : AccountStatistics → AccountStatistics) :
    KeepsOk R (modifyStatistics account g) :=
  hR.keepsOk_get_bind fun _ => hR.keepsOk_require_bind fun _ => keepsOk_update fun s => hR.statistics s _

theorem place (op : LimitOrderCreate) (f : ℤ) : KeepsOk R (op.place f) :=
  hR.keepsOk_bind (hR.intoStatistics _ _) fun _ => hR.keepsOk_bind (hR.adjustBalance _ _) fun _ =>
    hR.keepsOk_get_bind fun _ => hR.keepsOk_lift_bind fun _ =>
      hR.keepsOk_bind (keepsOk_update fun s => hR.limitOrders s _) fun _ => hR.keepsOk_pure _

theorem cancelLimitOrder (id : ℕ) : KeepsOk R (cancelLimitOrder id) :=
  hR.keepsOk_get_bind fun _ => hR.keepsOk_require_bind fun _ =>
    hR.keepsOk_bind (hR.intoStatistics _ _) fun _ => hR.keepsOk_bind (hR.adjustBalance _ _) fun _ =>
      hR.keepsOk_bind (hR.adjustBalance _ _) fun _ => keepsOk_update fun s => hR.limitOrders s _

theorem fillLimitOrder (id : ℕ) (pays receives : Asset) (cull : Bool) :
    KeepsOk R (fillLimitOrder id pays receives cull) := by
  refine hR.keepsOk_get_bind fun _ => hR.keepsOk_require_bind fun _ => hR.keepsOk_assert_bind <|
    hR.keepsOk_assert_bind <| hR.keepsOk_bind (hR.payMarketFees _) fun _ =>
      hR.keepsOk_bind ?_ fun _ => hR.keepsOk_bind ?_ fun _ => ?_
  · exact hR.keepsOk_bind (hR.intoStatistics _ _) fun _ => hR.adjustBalance _ _
  · exact keepsOk_ite (hR.payFee _ _) (hR.keepsOk_pure ())
  · refine keepsOk_ite
      (hR.keepsOk_bind (keepsOk_update fun s => hR.limitOrders s _) fun _ => hR.keepsOk_pure _)
      (hR.keepsOk_bind (keepsOk_update fun s => hR.limitOrders s _) fun _ =>
        keepsOk_ite ?_ (hR.keepsOk_pure _))
    exact hR.keepsOk_get_bind fun _ => hR.keepsOk_require_bind fun _ => hR.keepsOk_lift_bind fun _ =>
      keepsOk_ite (hR.keepsOk_bind (hR.cancelLimitOrder _) fun _ => hR.keepsOk_pure _)
        (hR.keepsOk_pure _)

/-- The collateral that was freed is returned. -/
theorem releaseCollateral (borrower : ℕ) (pays : Asset) (freed : Option Asset) :
    KeepsOk R (releaseCollateral borrower pays freed) := by
  cases freed with
  | some freed => exact hR.keepsOk_bind (hR.adjustBalance _ _) fun _ => hR.intoStatistics _ _
  | none => exact keepsOk_ite (hR.intoStatistics _ _) (hR.keepsOk_pure ())

section Positions

variable (hcalls : ∀ s t, R s { s with callOrders := t })
include hcalls

theorem fillCallOrder (id : ℕ) (pays receives : Asset) : KeepsOk R (fillCallOrder id pays receives) := by
  refine hR.keepsOk_get_bind fun _ => hR.keepsOk_require_bind fun _ => hR.keepsOk_assert_bind <|
    hR.keepsOk_assert_bind <| hR.keepsOk_assert_bind <|
      hR.keepsOk_bind (keepsOk_update fun s => hcalls s _) fun _ =>
        hR.keepsOk_bind (hR.modifyDynamicData fun _ => rfl) fun _ =>
          hR.keepsOk_bind (hR.releaseCollateral _ _ _) fun _ => ?_
  generalize CallOrder.freed _ = freed
  cases freed with
  | some freed =>
    exact hR.keepsOk_bind (keepsOk_update fun s => hcalls s _) fun _ => hR.keepsOk_pure _
  | none => exact hR.keepsOk_pure _

theorem position (op : CallOrderUpdate) (b : BitassetData) : KeepsOk R (op.position b) := by
  have hdebt : KeepsOk R op.moveDebt := keepsOk_ite (hR.keepsOk_pure ()) <|
    hR.keepsOk_bind (hR.adjustBalance _ _) fun _ =>
      hR.modifyDynamicData fun _ => rfl
  have hcollateral : KeepsOk R op.moveCollateral := keepsOk_ite (hR.keepsOk_pure ()) <|
    hR.keepsOk_bind (hR.adjustBalance _ _) fun _ =>
      keepsOk_ite (hR.intoStatistics _ _) (hR.keepsOk_pure ())
  refine hR.keepsOk_bind hdebt fun _ => hR.keepsOk_bind hcollateral fun _ =>
    hR.keepsOk_get_bind fun s => ?_
  generalize s.findCall _ _ = own
  cases own with
  | none =>
    exact hR.keepsOk_get_bind fun _ => hR.keepsOk_assert_bind <| hR.keepsOk_assert_bind <|
      hR.keepsOk_lift_bind fun _ =>
        hR.keepsOk_bind (keepsOk_update fun s => hcalls s _) fun _ => hR.keepsOk_pure _
  | some own =>
    exact hR.keepsOk_lift_bind fun _ =>
      hR.keepsOk_bind (keepsOk_update fun s => hcalls s _) fun _ => hR.keepsOk_pure _

end Positions

end BookFrame

/-! ### Locked balances -/

theorem offLocks_frame : PositionFrame OffLocks where
  toFrame := offLocksFrame
  quiet h := h.toOffLocks
  statistics _ _ := ⟨rfl, rfl, rfl, rfl, rfl⟩
  limitOrders _ _ := ⟨rfl, rfl, rfl, rfl, rfl⟩
  callOrders _ _ := ⟨rfl, rfl, rfl, rfl, rfl⟩

/-- **What an action does to locked balances**: nothing, but for the operations on them. -/
theorem Does.offLocks {a : Action} {s s' : Books} (hlock : ∀ op, a ≠ .lock op) (h : Does S a s s') :
    OffLocks s s' := by
  cases h with
  | quiet h => exact h.toOffLocks
  | place h => exact offLocks_frame.book.place _ _ _ _ _ h
  | cancel h => exact offLocks_frame.book.cancelLimitOrder _ _ _ _ h
  | fillLimit h => exact offLocks_frame.book.fillLimitOrder _ _ _ _ _ _ _ h
  | fillCall h => exact offLocks_frame.book.fillCallOrder offLocks_frame.callOrders _ _ _ _ _ _ h
  | position _ _ h _ => exact offLocks_frame.book.position offLocks_frame.callOrders _ _ _ _ _ h
  | close | bitasset | newBitasset => exact ⟨rfl, rfl, rfl, rfl, rfl⟩
  | @lock op => exact absurd rfl (hlock op)

/-! ### Call orders -/

/-- A step that leaves call orders alone. -/
def SameCalls (s s' : Books) : Prop := s'.callOrders = s.callOrders

theorem sameCalls_frame : OrderFrame SameCalls where
  toFrame := Frame.eq Books.callOrders
  quiet h := h.callOrders
  statistics _ _ := rfl
  limitOrders _ _ := rfl

/-- **`fill_order` of a call order** takes `pays` off the collateral and `receives` off the debt, and
removes the order when there is no debt left. -/
theorem fillCallOrder_calls {id : ℕ} {pays receives : Asset} {filled : Bool} {s s' : Books}
    (h : fillCallOrder id pays receives s = .ok filled s') :
    ∃ o, s.callOrders.lookup id = some o ∧ o.debtType = receives.assetId ∧
      s'.callOrders = if o.debt = receives.amount then s.callOrders.erase id else
        s.callOrders.modify id fun _ =>
          { o with debt := o.debt - receives.amount, collateral := o.collateral - pays.amount } := by
  unfold fillCallOrder at h
  rw [get_bind] at h
  obtain ⟨o, ho, h⟩ := require_bind_eq_ok.mp h
  obtain ⟨htype, h⟩ := assert_bind_eq_ok.mp h
  obtain ⟨-, h⟩ := assert_bind_eq_ok.mp h
  obtain ⟨-, h⟩ := assert_bind_eq_ok.mp h
  obtain ⟨_, s₁, hreduce, h⟩ := bind_eq_ok.mp h
  obtain rfl := update_eq_ok.mp hreduce
  obtain ⟨_, s₂, hsupply, h⟩ := bind_eq_ok.mp h
  obtain ⟨_, s₃, hrelease, hremove⟩ := bind_eq_ok.mp h
  obtain ⟨d, -, rfl⟩ := modifyDynamicData_ok hsupply
  have hsame : SameCalls _ s₃ := sameCalls_frame.book.releaseCollateral _ _ _ _ _ _ hrelease
  refine ⟨o, ho, htype, ?_⟩
  by_cases hdebt : o.debt = receives.amount
  · have hzero : o.debt - receives.amount = 0 := sub_eq_zero.mpr hdebt
    simp only [CallOrder.freed, if_pos hzero] at hremove
    obtain ⟨_, s₄, herase, hremove⟩ := bind_eq_ok.mp hremove
    obtain ⟨-, rfl⟩ := pure_eq_ok.mp hremove
    obtain rfl := update_eq_ok.mp herase
    rw [if_pos hdebt]
    change s₃.callOrders.erase id = _
    rw [hsame, Index.erase_modify]
  · have hzero : o.debt - receives.amount ≠ 0 := sub_ne_zero.mpr hdebt
    simp only [CallOrder.freed, if_neg hzero] at hremove
    obtain ⟨-, rfl⟩ := pure_eq_ok.mp hremove
    rw [if_neg hdebt, hsame]
    simp only [if_neg hzero]

/-- **What an action does to call orders.** -/
theorem Does.callOrders {a : Action} {s s' : Books} (h : Does S a s s') :
    s'.callOrders = s.callOrders ∨ (∃ id pays receives, a = .fillCall id pays receives) ∨
      (∃ op b, a = .position op b) ∨ ∃ id, a = .close id := by
  cases h with
  | quiet h => exact .inl h.callOrders
  | place h => exact .inl (sameCalls_frame.book.place _ _ _ _ _ h)
  | cancel h => exact .inl (sameCalls_frame.book.cancelLimitOrder _ _ _ _ h)
  | fillLimit h => exact .inl (sameCalls_frame.book.fillLimitOrder _ _ _ _ _ _ _ h)
  | fillCall => exact .inr (.inl ⟨_, _, _, rfl⟩)
  | position => exact .inr (.inr (.inl ⟨_, _, rfl⟩))
  | close => exact .inr (.inr (.inr ⟨_, rfl⟩))
  | bitasset | newBitasset => exact .inl rfl
  | lock h => exact .inl (offOrders_lockFrame.run _ _ _ _ h).callOrders

end FinChain.Ledger
