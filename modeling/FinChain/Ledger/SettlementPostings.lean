import FinChain.Ledger.OrderPostings

/-!
# Settlements as postings

A holder of a settled asset is paid from its fund, at the price of the settlement and rounded down;
any other settlement waits until `clear_expired_orders` finds it due. That loop cancels a settlement
when the call order it was matched with throws a black swan, so it matters that the exception comes
before anything was filled.
-/

namespace FinChain.Ledger

open Exec

variable {L : Licence} {skip : Bool}

/-! ### Redemption -/

/-- A payment does not depend on the bitassets. -/
theorem Paid.withBitassets {s s' : Books} {v : ℕ → ℤ} (h : Paid s v s') (t : Table ℕ BitassetData) :
    Paid { s with bitassets := t } v { s' with bitassets := t } where
  rest := by
    rw [h.rest]
  cash := h.cash
  balances := h.balances
  funds := h.funds
  pending := h.pending
  supply := h.supply

/-- What a settled asset pays for an amount: the price of the settlement, rounded down. -/
def BitassetData.redeemed (b : BitassetData) (amount : ℤ) : ℤ :=
  amount * b.settlementPrice.quote.amount / b.settlementPrice.base.amount

theorem BitassetData.mul_settlementPrice {b : BitassetData} {amount settled : Asset} {supply : ℤ}
    (hcovers : b.Covers amount.assetId supply) (hamount : 0 ≤ amount.amount)
    (hamount' : amount.amount < 2 ^ 63) (hquote : b.settlementPrice.quote.amount < 2 ^ 63)
    (h : amount.mul b.settlementPrice = .ok settled) :
    settled = ⟨b.redeemed amount.amount, b.shortBackingAsset⟩ := by
  rw [Asset.mul_of_base hcovers.base_id.symm] at h
  obtain ⟨-, hsettled, -⟩ := Asset.convert_eq_div hamount (lt_trans hamount' (by decide))
    hcovers.quote_nonneg (lt_trans hquote (by decide)) h
  rw [hsettled, hcovers.quote_id]
  rfl

theorem BitassetData.redeemed_mul_le {b : BitassetData} {k : ℕ} {supply : ℤ} (h : b.Covers k supply)
    (amount : ℤ) : b.redeemed amount * b.settlementPrice.base.amount ≤
      amount * b.settlementPrice.quote.amount :=
  Int.ediv_mul_le _ h.base_pos.ne'

theorem BitassetData.redeemed_nonneg {b : BitassetData} {k : ℕ} {supply : ℤ} (h : b.Covers k supply)
    {amount : ℤ} (hamount : 0 ≤ amount) : 0 ≤ b.redeemed amount :=
  Int.ediv_nonneg (mul_nonneg hamount h.quote_nonneg) h.base_pos.le

/-- **Redemption.** The balance is paid first, then the fund and the supply shrink together. -/
theorem AssetSettle.redeem_ok {op : AssetSettle} {b : BitassetData} {supply : ℤ} {s s' : Books}
    {u : Unit} (hcovers : b.Covers op.amount.assetId supply) (hamount : 0 ≤ op.amount.amount)
    (hquote : b.settlementPrice.quote.amount < 2 ^ 63) (h : op.redeem b s = .ok u s') :
    ∃ s₁ d, b.redeemed op.amount.amount ≤ b.settlementFund ∧
      Paid s (Asset.vec ⟨b.redeemed op.amount.amount, b.shortBackingAsset⟩) s₁ ∧
      s₁.dynamicData.lookup op.amount.assetId = some d ∧
      s' = { s₁ with
        bitassets := s₁.bitassets.modify op.amount.assetId fun b' =>
          { b' with settlementFund := b'.settlementFund - b.redeemed op.amount.amount }
        dynamicData :=
          s₁.dynamicData.insert op.amount.assetId (d.supplied (-op.amount.amount)) } := by
  unfold redeem at h
  obtain ⟨settled, hsettled, h⟩ := lift_bind_eq_ok.mp h
  obtain ⟨hfund, h⟩ := assert_bind_eq_ok.mp h
  obtain rfl := BitassetData.mul_settlementPrice hcovers hamount op.amount_fits.2 hquote hsettled
  unfold modifyBitasset at h
  rw [update_bind] at h
  obtain ⟨_, s₂, hbalance, h⟩ := bind_eq_ok.mp h
  obtain ⟨d, hd, rfl⟩ := modifyDynamicData_ok h
  have hpaid := paid_adjustBalance hbalance
  refine ⟨{ s₂ with bitassets := s.bitassets }, d, hfund, hpaid.withBitassets _, hd, ?_⟩
  rw [supplied_neg, hpaid.rest]

theorem AssetSettle.doEvaluate_read {op : AssetSettle} {s s₁ : Books} {m : Unit}
    (h : op.doEvaluate s = .ok m s₁) : s₁ = s := by
  unfold doEvaluate at h
  rw [get_bind] at h
  obtain ⟨a, -, h⟩ := require_bind_eq_ok.mp h
  obtain ⟨b, -, h⟩ := require_bind_eq_ok.mp h
  obtain ⟨-, h⟩ := assert_bind_eq_ok.mp h
  have hread : ∀ {u s₂}, checkFeed b s = .ok u s₂ → s₂ = s := by
    intro u s₂ hcheck
    unfold checkFeed at hcheck
    split at hcheck
    · exact (assert_eq_ok.mp hcheck).2
    · exact (assert_eq_ok.mp hcheck).2
  obtain ⟨-, -, h⟩ := bind_eq_ok_of_read hread h
  obtain ⟨-, -, h⟩ := require_bind_eq_ok.mp h
  exact (assert_eq_ok.mp h).2

theorem AssetSettle.postings_doApply {op : AssetSettle} {s s' : Books} {u : Unit} (hs : Sound s)
    (hfits : s.Fits) (hamount : 0 ≤ op.amount.amount)
    (hL : ∀ b, s.bitassets.lookup op.amount.assetId = some b → b.hasSettlement = true →
      L.redemptions op.amount.assetId) (h : op.doApply s = .ok u s') : Postings L s 0 s' := by
  unfold doApply at h
  obtain ⟨_, s₁, hbalance, h⟩ := bind_eq_ok.mp h
  rw [get_bind] at h
  obtain ⟨b, hb, h⟩ := require_bind_eq_ok.mp h
  have hpaid := paid_adjustBalance hbalance
  rw [Asset.vec_neg] at hpaid
  have hb₀ : s.bitassets.lookup op.amount.assetId = some b := by
    rw [hpaid.rest] at hb
    exact hb
  split at h
  · next hsettled =>
    obtain ⟨supply, -, hcovers⟩ := hs.settled _ b hb₀ hsettled
    obtain ⟨s₂, d, hfund, hpaid', hd, rfl⟩ := redeem_ok hcovers hamount (hfits.prices _ b hb₀).2 h
    have hb₂ : s₂.bitassets.lookup op.amount.assetId = some b := by
      rw [hpaid'.rest]
      exact hb
    have hredeem := Posting.redeem (L := L) (hL b hb₀ hsettled) hb₂ hsettled hd hamount hfund
      (BitassetData.redeemed_mul_le hcovers _)
    refine (((Postings.paid hpaid).trans (.paid hpaid')).trans (.single hredeem)).cast ?_
    change -op.amount.vec + _ + (op.amount.vec - _) = 0
    abel
  · obtain rfl := update_eq_ok.mp h
    have hcreate := Posting.createSettlement (L := L) (s := s₁)
      (o := ⟨op.account, op.amount, s₁.headTime + b.options.forceSettlementDelaySec⟩) hamount
    exact ((Postings.paid hpaid).trans (.single hcreate)).cast (neg_add_cancel _)

theorem postings_assetSettle {S : Settings} {op : AssetSettle} {s s' : Books} {u : Unit}
    (hs : L.Keeps s) (hfits : s.Fits) (hamount : 0 ≤ op.amount.amount)
    (hL : ∀ b, s.bitassets.lookup op.amount.assetId = some b → b.hasSettlement = true →
      L.redemptions op.amount.assetId) (h : op.evaluator.run S skip s = .ok u s') : Postings L s 0 s' := by
  refine postings_run hs rfl rfl AssetSettle.doEvaluate_read ?_ h
  intro f m v s₁ s₂ hevaluate hpaid hs₁ happly
  refine AssetSettle.postings_doApply hs₁.sound (hpaid.fits hfits) hamount ?_ happly
  rw [hpaid.rest]
  exact hL

/-! ### Global settlement -/

theorem AssetGlobalSettle.doEvaluate_ok {op : AssetGlobalSettle} {s s₁ : Books} {m : Unit}
    (h : op.doEvaluate s = .ok m s₁) :
    s₁ = s ∧ ∃ supply, supplyOf s.dynamicData op.assetToSettle = some supply ∧ 0 < supply := by
  unfold doEvaluate at h
  rw [get_bind] at h
  obtain ⟨a, -, h⟩ := require_bind_eq_ok.mp h
  obtain ⟨b, -, h⟩ := require_bind_eq_ok.mp h
  obtain ⟨-, h⟩ := assert_bind_eq_ok.mp h
  obtain ⟨-, h⟩ := assert_bind_eq_ok.mp h
  obtain ⟨d, hd, h⟩ := require_bind_eq_ok.mp h
  obtain ⟨hpos, h⟩ := assert_bind_eq_ok.mp h
  obtain ⟨lowest, -, h⟩ := lift_bind_eq_ok.mp h
  obtain ⟨least, -, h⟩ := require_bind_eq_ok.mp h
  obtain ⟨pays, -, h⟩ := lift_bind_eq_ok.mp h
  obtain ⟨covered, -, h⟩ := lift_bind_eq_ok.mp h
  obtain ⟨-, rfl⟩ := assert_eq_ok.mp h
  exact ⟨rfl, d.currentSupply, supplyOf_of_lookup hd, hpos⟩

theorem postings_assetGlobalSettle {S : Settings} {op : AssetGlobalSettle} {s s' : Books} {u : Unit}
    (hs : L.Keeps s) (h : op.evaluator.run S skip s = .ok u s') : Postings L s 0 s' := by
  refine postings_run hs rfl rfl (fun hread => (AssetGlobalSettle.doEvaluate_ok hread).1) ?_ h
  intro f m v s₁ s₂ hevaluate hpaid hs₁ happly
  obtain ⟨-, supply, hsupply, hpos⟩ := AssetGlobalSettle.doEvaluate_ok hevaluate
  refine postings_globallySettleAsset hs₁ (.inl ⟨supply, ?_, hpos⟩) happly
  rw [hpaid.supply]
  exact hsupply

/-! ### Black swans -/

/-- Any exception but `black_swan_exception`. -/
def NoSwan (e : LedgerError) : Prop := ¬ e = .blackSwan

section NoSwan

theorem raises_adjustBalance (account : ℕ) (delta : Asset) :
    Raises NoSwan (adjustBalance account delta) := by
  have hassert : NoSwan .assertion := by
    intro h
    cases h
  unfold adjustBalance
  split
  · exact raises_pure ()
  refine raises_bind raises_get fun s => ?_
  cases s.balances.lookup (account, delta.assetId) with
  | none => exact raises_bind (raises_assert hassert _) fun _ => raises_update _
  | some b => exact raises_bind (raises_assert hassert _) fun _ => raises_update _

theorem raises_modifyStatistics (account : ℕ) (g : AccountStatistics → AccountStatistics) :
    Raises NoSwan (modifyStatistics account g) :=
  raises_bind raises_get fun _ => raises_bind (raises_require nofun _) fun _ => raises_update _

theorem raises_modifyDynamicData (assetId : ℕ) (g : AssetDynamicData → AssetDynamicData) :
    Raises NoSwan (modifyDynamicData assetId g) :=
  raises_bind raises_get fun _ => raises_bind (raises_require nofun _) fun _ => raises_update _

theorem raises_payMarketFees (receives : Asset) : Raises NoSwan (payMarketFees receives) := by
  refine raises_bind raises_get fun s => raises_bind (raises_require nofun _) fun a => ?_
  refine raises_bind (raises_lift fun e he => ?_) fun fee => ?_
  · unfold calculateMarketFee at he
    simp only at he
    split at he
    · cases he
    split at he
    · cases he
    · cases he
      exact nofun
  · refine raises_bind ?_ fun _ => raises_pure _
    unfold collectFee
    split
    · exact raises_modifyDynamicData _ _
    · exact raises_pure ()

theorem raises_fillCallOrder (id : ℕ) (pays receives : Asset) :
    Raises NoSwan (fillCallOrder id pays receives) := by
  refine raises_bind raises_get fun s => raises_bind (raises_require nofun _) fun order => ?_
  refine raises_bind (raises_assert nofun _) fun _ => raises_bind (raises_assert nofun _) fun _ =>
    raises_bind (raises_assert nofun _) fun _ => raises_bind (raises_update _) fun _ =>
    raises_bind (raises_modifyDynamicData _ _) fun _ => raises_bind ?_ fun _ => ?_
  · unfold releaseCollateral
    split
    · exact raises_bind (raises_adjustBalance _ _) fun _ => raises_modifyStatistics _ _
    · split
      · exact raises_modifyStatistics _ _
      · exact raises_pure ()
  · unfold removeCallOrder
    split
    · exact raises_bind (raises_update _) fun _ => raises_pure _
    · exact raises_pure _

theorem raises_fillSettlement (id : ℕ) (pays receives : Asset) :
    Raises NoSwan (fillSettlement id pays receives) := by
  refine raises_bind raises_get fun s => raises_bind (raises_require nofun _) fun order => ?_
  refine raises_bind (raises_payMarketFees _) fun fee =>
    raises_bind (raises_lift fun e he => ?_) fun less => ?_
  · unfold Asset.lt at he
    split at he
    · cases he
    · cases he
      exact nofun
  refine raises_bind ?_ fun _ => raises_bind (raises_adjustBalance _ _) fun _ =>
    raises_bind ?_ fun _ => raises_pure _
  · unfold reduceSettlement
    split
    · exact raises_pure ()
    · exact raises_update _
  · unfold removeSettlement
    split
    · exact raises_update _
    · exact raises_pure ()

end NoSwan

/-- **A black swan is found before anything is filled.** -/
theorem matchSettlement_leavesAt (callId settleId : ℕ) (price : Price) (maxSettlement : Asset) :
    LeavesAt (· = .blackSwan) (matchSettlement callId settleId price maxSettlement) := by
  have hread : Frame fun s s' : Books => s' = s := Frame.eq id
  refine leavesAt_bind hread.keeps_get fun s => leavesAt_bind (hread.keeps_require _ _) fun call =>
    leavesAt_bind (hread.keeps_require _ _) fun settle => ?_
  refine leavesAt_bind (hread.keeps_assert _ _) fun _ => leavesAt_bind (hread.keeps_assert _ _) fun _ =>
    leavesAt_bind (hread.keeps_lift _) fun forSale => leavesAt_bind (hread.keeps_lift _) fun receives =>
    leavesAt_bind (hread.keeps_lift _) fun pays => leavesAt_bind (hread.keeps_lift _) fun covered =>
    leavesAt_bind (hread.keeps_assert _ _) fun _ => leavesAt_of_raises ?_
  exact raises_bind (raises_fillCallOrder _ _ _) fun _ =>
    raises_bind (raises_fillSettlement _ _ _) fun _ => raises_pure _

/-! ### Force settlement -/

/-- A settlement that brings about a black swan has changed nothing when it is cancelled. -/
theorem matchOrCancel_ok {call : Option (ℕ × CallOrder)} {orderId : ℕ} {order : ForceSettlement}
    {price : Price} {maxSettlement : Asset} {settled : Option Asset} {s s' : Books}
    (h : matchOrCancel call orderId order price maxSettlement s = .ok settled s') :
    settled = none ∧ cancelSettlement orderId s = .ok () s' ∨
      ∃ callId amount, settled = some amount ∧
        matchSettlement callId orderId price maxSettlement s = .ok amount s' := by
  unfold matchOrCancel at h
  split at h
  · obtain ⟨_, s₁, hcancel, h⟩ := bind_eq_ok.mp h
    obtain ⟨rfl, rfl⟩ := pure_eq_ok.mp h
    exact .inl ⟨rfl, hcancel⟩
  obtain ⟨⟨callId, _⟩, -, h⟩ := require_bind_eq_ok.mp h
  rcases tryCatch_eq_ok.mp h with hmatch | ⟨e, s₁, hthrow, hhandle⟩
  · rw [← bind_pure_comp] at hmatch
    obtain ⟨amount, s₁, hmatched, hpure⟩ := bind_eq_ok.mp hmatch
    obtain ⟨rfl, rfl⟩ := pure_eq_ok.mp hpure
    exact .inr ⟨callId, amount, rfl, hmatched⟩
  · rw [← bind_pure_comp] at hthrow
    have hthrow' : matchSettlement callId orderId price maxSettlement s = .error e s₁ := by
      rcases bind_eq_error.mp hthrow with hthrow | ⟨_, _, -, hthrow⟩
      · exact hthrow
      · cases hthrow
    unfold cancelAtSwan at hhandle
    split at hhandle
    · next he =>
      obtain rfl : s₁ = s := matchSettlement_leavesAt _ _ _ _ s e s₁ hthrow' he
      obtain ⟨_, s₂, hcancel, hhandle⟩ := bind_eq_ok.mp hhandle
      obtain ⟨rfl, rfl⟩ := pure_eq_ok.mp hhandle
      exact .inl ⟨rfl, hcancel⟩
    · cases hhandle

theorem postings_matchOrCancel {call : Option (ℕ × CallOrder)} {orderId : ℕ} {order : ForceSettlement}
    {price : Price} {maxSettlement : Asset} {settled : Option Asset} {s s' : Books} (hs : Sound s)
    (hmax : 0 ≤ maxSettlement.amount)
    (h : matchOrCancel call orderId order price maxSettlement s = .ok settled s') :
    Postings L s 0 s' := by
  rcases matchOrCancel_ok h with ⟨-, hcancel⟩ | ⟨callId, amount, -, hmatched⟩
  · exact postings_cancelSettlement hcancel
  · exact postings_matchSettlement hs hmax hmatched

theorem Asset.sub_eq_ok {a b c : Asset} (h : a.sub b = .ok c) : c.amount = a.amount - b.amount := by
  unfold Asset.sub at h
  split at h
  · cases h
    rfl
  · cases h

theorem postings_settleAgainstCalls {orderId mia backing : ℕ} {price : Price} {maxVolume : Asset}
    {fuel : ℕ} {settled total : Asset} {s s' : Books} (hs : L.Keeps s)
    (h : settleAgainstCalls orderId mia backing price maxVolume fuel settled s = .ok total s') :
    Postings L s 0 s' := by
  induction fuel generalizing s settled with
  | zero =>
    obtain ⟨-, rfl⟩ := pure_eq_ok.mp h
    exact .refl s
  | succ fuel ih =>
    unfold settleAgainstCalls at h
    rw [get_bind] at h
    obtain ⟨more, hmore, h⟩ := lift_bind_eq_ok.mp h
    have hstop : ∀ {r : Asset}, (pure r : LedgerM Asset) s = .ok total s' → Postings L s 0 s' := by
      intro r hr
      obtain ⟨-, rfl⟩ := pure_eq_ok.mp hr
      exact .refl s
    cases more with
    | false => exact hstop h
    | true =>
    cases horder : s.settlements.lookup orderId with
    | none =>
      rw [horder] at h
      exact hstop h
    | some order =>
      rw [horder] at h
      obtain ⟨lowest, -, h⟩ := lift_bind_eq_ok.mp h
      obtain ⟨maxSettlement, hmax, h⟩ := lift_bind_eq_ok.mp h
      obtain ⟨amount, s₁, hmatch, h⟩ := bind_eq_ok.mp h
      have hlt := (Asset.lt_eq_ok hmore).2.mp rfl
      have hmax' := Asset.sub_eq_ok hmax
      have hmatched := postings_matchOrCancel (L := L) hs.sound (by omega) hmatch
      cases amount with
      | none =>
        obtain ⟨-, rfl⟩ := pure_eq_ok.mp h
        exact hmatched
      | some amount =>
        obtain ⟨settled', -, h⟩ := lift_bind_eq_ok.mp h
        exact (hmatched.trans (ih (hmatched.keeps hs) h)).cast (add_zero 0)

/-- The volume that was settled is not part of the settlement of an asset. -/
theorem postings_forceSettledVolume (k : ℕ) (volume : ℤ) (s : Books) :
    Postings L s 0 { s with
      bitassets := s.bitassets.modify k fun b => { b with forceSettledVolume := volume } } := by
  cases hb : s.bitassets.lookup k with
  | none =>
    rw [Table.modify_of_none _ hb]
    exact .refl s
  | some b =>
    exact .single (.setBitasset hb rfl rfl (fun hfeeds => ⟨hfeeds.feeds, hfeeds.current⟩) (.inl rfl))

theorem postings_settleDue {id : ℕ} {order : ForceSettlement} {b : BitassetData} {maxVolume : Asset}
    {s s' : Books} {u : Unit} (hs : L.Keeps s) (h : settleDue id order b maxVolume s = .ok u s') :
    Postings L s 0 s' := by
  unfold settleDue at h
  rw [get_bind] at h
  obtain ⟨receives, -, h⟩ := lift_bind_eq_ok.mp h
  obtain ⟨price, -, h⟩ := lift_bind_eq_ok.mp h
  obtain ⟨settled, s₁, hsettle, h⟩ := bind_eq_ok.mp h
  unfold modifyBitasset at h
  obtain rfl := update_eq_ok.mp h
  exact ((postings_settleAgainstCalls hs hsettle).trans
    (postings_forceSettledVolume _ _ s₁)).cast (add_zero 0)

theorem postings_settlementRound {assetId id : ℕ} {order : ForceSettlement} {maxVolume : Asset}
    {cursor : SettlementCursor} {s s' : Books} (hs : L.Keeps s)
    (h : settlementRound assetId id order maxVolume s = .ok cursor s') : Postings L s 0 s' := by
  unfold settlementRound at h
  rw [get_bind] at h
  obtain ⟨-, -, h⟩ := require_bind_eq_ok.mp h
  obtain ⟨b, -, h⟩ := require_bind_eq_ok.mp h
  split at h
  · obtain ⟨_, s₁, hcancel, h⟩ := bind_eq_ok.mp h
    obtain ⟨-, rfl⟩ := pure_eq_ok.mp h
    exact postings_cancelSettlement hcancel
  split at h
  · obtain ⟨-, rfl⟩ := pure_eq_ok.mp h
    exact .refl s
  split at h
  · obtain ⟨_, s₁, hcancel, h⟩ := bind_eq_ok.mp h
    obtain ⟨-, rfl⟩ := pure_eq_ok.mp h
    exact postings_cancelSettlement hcancel
  unfold settleWithin at h
  rw [get_bind] at h
  obtain ⟨volume, -, h⟩ := lift_bind_eq_ok.mp h
  split at h
  · obtain ⟨-, rfl⟩ := pure_eq_ok.mp h
    exact .refl s
  · obtain ⟨_, s₁, hdue, h⟩ := bind_eq_ok.mp h
    obtain ⟨-, rfl⟩ := pure_eq_ok.mp h
    exact postings_settleDue hs hdue

theorem postings_clearSettlements {fuel : ℕ} {cursor : SettlementCursor} {s s' : Books} {u : Unit}
    (hs : L.Keeps s) (h : clearSettlements fuel cursor s = .ok u s') : Postings L s 0 s' := by
  induction fuel generalizing s cursor with
  | zero =>
    obtain ⟨-, rfl⟩ := pure_eq_ok.mp h
    exact .refl s
  | succ fuel ih =>
    cases cursor with
    | none =>
      obtain ⟨-, rfl⟩ := pure_eq_ok.mp h
      exact .refl s
    | some c =>
      unfold clearSettlements at h
      rw [get_bind] at h
      cases hnext : s.nextSettlementAsset c.1 with
      | none =>
        rw [hnext] at h
        obtain ⟨-, rfl⟩ := pure_eq_ok.mp h
        exact .refl s
      | some assetId =>
      rw [hnext] at h
      cases hof : s.settlementsOf assetId with
      | nil =>
        simp only [hof] at h
        obtain ⟨-, rfl⟩ := pure_eq_ok.mp h
        exact .refl s
      | cons e rest =>
        simp only [hof] at h
        obtain ⟨cursor', s₁, hround, h⟩ := bind_eq_ok.mp h
        have hfirst := postings_settlementRound hs hround
        exact (hfirst.trans (ih (hfirst.keeps hs) h)).cast (add_zero 0)

theorem postings_clearLimitOrders {S : Settings} {fuel : ℕ} {s s' : Books} {u : Unit}
    (hs : L.Keeps s) (h : clearLimitOrders S fuel s = .ok u s') : Postings L s 0 s' := by
  induction fuel generalizing s with
  | zero =>
    obtain ⟨-, rfl⟩ := pure_eq_ok.mp h
    exact .refl s
  | succ fuel ih =>
    unfold clearLimitOrders at h
    rw [get_bind] at h
    cases hexpired : s.firstExpired with
    | none =>
      rw [hexpired] at h
      obtain ⟨-, rfl⟩ := pure_eq_ok.mp h
      exact .refl s
    | some e =>
      rw [hexpired] at h
      obtain ⟨_, s₁, hcancel, h⟩ := bind_eq_ok.mp h
      have hfirst := postings_limitOrderCancel hs hcancel
      exact (hfirst.trans (ih (hfirst.keeps hs) h)).cast (add_zero 0)

theorem postings_clearExpiredOrders {S : Settings} {s s' : Books} {u : Unit} (hs : L.Keeps s)
    (h : clearExpiredOrders S s = .ok u s') : Postings L s 0 s' := by
  unfold clearExpiredOrders at h
  rw [get_bind] at h
  obtain ⟨_, s₁, hlimits, h⟩ := bind_eq_ok.mp h
  rw [get_bind] at h
  have hfirst := postings_clearLimitOrders hs hlimits
  exact (hfirst.trans (postings_clearSettlements (hfirst.keeps hs) h)).cast (add_zero 0)

end FinChain.Ledger
