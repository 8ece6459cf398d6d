import FinChain.Ledger.Redemption

/-!
# Whether a holder of a settled asset can redeem it

The settlement fund would pay everybody, as long as nothing is minted. But `asset_settle` goes
through a check that was written for assets that are not settled: an asset that is not a prediction
market must have a feed. After the settlement no feed is published any more, and those that were
published expire; then the holders cannot redeem the asset, for good
(`not_settled_holder_redeems`). A payment of more than `GRAPHENE_MAX_SHARE_SUPPLY` is refused, too.
These are the only reasons (`settled_holder_redeems_iff`).
-/

namespace FinChain.Ledger

open Exec

/-! ### Operations that return -/

theorem prepareFee_lookups {S : Settings} {account : ℕ} {fee : Asset} {f : ℤ} {s s' : Books}
    (h : prepareFee S account fee s = .ok f s') :
    (∃ a, s.statistics.lookup account = some a) ∧ ∃ d, s.dynamicData.lookup fee.assetId = some d := by
  unfold prepareFee at h
  rw [get_bind, assert_bind_eq_ok] at h
  obtain ⟨-, h⟩ := h
  obtain ⟨a, ha, h⟩ := require_bind_eq_ok.mp h
  obtain ⟨_, -, h⟩ := require_bind_eq_ok.mp h
  obtain ⟨d, hd, -⟩ := require_bind_eq_ok.mp h
  exact ⟨⟨a, ha⟩, d, hd⟩

theorem getBalance_nonneg {s : Books} (h : BalancesNonneg s.balances) (account assetId : ℕ) :
    0 ≤ s.getBalance account assetId := by
  cases hb : s.balances.lookup (account, assetId) with
  | none => rw [Books.getBalance_of_none hb]
  | some b =>
    rw [Books.getBalance_of_lookup hb]
    exact h _ b hb

/-- The fee can be converted and paid, once it was prepared. -/
theorem fees_return {S : Settings} {account : ℕ} {fee : Asset} {f : ℤ} {s : Books}
    (h : prepareFee S account fee s = .ok f s) (x : ℤ) :
    ∃ s₁ s₂, convertFee fee x s = .ok () s₁ ∧ payFee account x s₁ = .ok () s₂ := by
  obtain ⟨⟨a, ha⟩, d, hd⟩ := prepareFee_lookups h
  have hconvert : ∃ t, convertFee fee x s = .ok () { s with dynamicData := t } := by
    unfold convertFee
    split
    · exact ⟨s.dynamicData, rfl⟩
    · unfold modifyDynamicData
      rw [get_bind]
      exact ⟨_, require_bind_eq_ok.mpr ⟨d, hd, update_eq_ok.mpr rfl⟩⟩
  obtain ⟨t, hconvert⟩ := hconvert
  have hpay : ∃ t', payFee account x { s with dynamicData := t } =
      .ok () { s with dynamicData := t, statistics := t' } := by
    unfold payFee modifyStatistics
    rw [get_bind, get_bind]
    exact ⟨_, require_bind_eq_ok.mpr ⟨a, ha, update_eq_ok.mpr rfl⟩⟩
  obtain ⟨t', hpay⟩ := hpay
  exact ⟨_, _, hconvert, hpay⟩

theorem BitassetData.redeemed_le_fund {b : BitassetData} {k : ℕ} {supply amount : ℤ}
    (h : b.Covers k supply) (hamount : amount ≤ supply) :
    b.redeemed amount ≤ b.settlementFund := by
  refine Int.le_of_mul_le_mul_right ?_ h.base_pos
  calc b.redeemed amount * b.settlementPrice.base.amount
      ≤ amount * b.settlementPrice.quote.amount := BitassetData.redeemed_mul_le h amount
    _ ≤ supply * b.settlementPrice.quote.amount :=
        mul_le_mul_of_nonneg_right hamount h.quote_nonneg
    _ ≤ b.settlementFund * b.settlementPrice.base.amount := h.covered

/-- The price of the settlement is defined for every amount, but for the limit on the result. -/
theorem BitassetData.mul_settlementPrice_eq_ok {b : BitassetData} {amount : Asset} {supply : ℤ}
    (hcovers : b.Covers amount.assetId supply) (hamount : 0 ≤ amount.amount)
    (hamount' : amount.amount < 2 ^ 63) (hquote : b.settlementPrice.quote.amount < 2 ^ 63) :
    (∃ settled, amount.mul b.settlementPrice = .ok settled) ↔
      b.redeemed amount.amount ≤ maxShareSupply := by
  have hproduct : uint128 (uint128 amount.amount * b.settlementPrice.quote.amount) =
      amount.amount * b.settlementPrice.quote.amount :=
    uint128_mul hamount (lt_trans hamount' (by decide)) hcovers.quote_nonneg
      (lt_trans hquote (by decide))
  rw [Asset.mul_of_base hcovers.base_id.symm]
  unfold BitassetData.redeemed
  constructor
  · rintro ⟨settled, hsettled⟩
    have hle := (Asset.convert_eq_ok.mp hsettled).2.1
    rw [hproduct] at hle
    exact hle
  · intro hle
    refine ⟨_, Asset.convert_eq_ok.mpr ⟨hcovers.base_pos, ?_, rfl⟩⟩
    rw [hproduct]
    exact hle

/-! ### Redemption is accepted -/

theorem prepareFee_of_run' {S : Settings} {account : ℕ} {fee : Asset} {f : ℤ} {s : Books}
    (h : (prepareFee S account fee).run' s = some f) : prepareFee S account fee s = .ok f s := by
  have hfinal := ok_final_of_run' h
  rwa [← (prepareFee_ok hfinal).1] at hfinal

/-- The account has what it redeems, and the fee beside it. -/
def AssetSettle.FeePayable (op : AssetSettle) (s : Books) : Prop :=
  op.fee.amount + (if op.fee.assetId = op.amount.assetId then op.amount.amount else 0) ≤
    s.getBalance op.account op.fee.assetId

instance (op : AssetSettle) (s : Books) : Decidable (op.FeePayable s) :=
  inferInstanceAs (Decidable (_ ≤ _))

/-- The amount is taken, the fund pays, and the fee is charged. -/
theorem AssetSettle.redemption_returns {op : AssetSettle} {b : BitassetData} {supply : ℤ}
    {s : Books} (hb : s.bitassets.lookup op.amount.assetId = some b)
    (hsettled : b.hasSettlement = true) (hcovers : b.Covers op.amount.assetId supply)
    (hsupply : supplyOf s.dynamicData op.amount.assetId = some supply)
    (hbalances : BalancesNonneg s.balances) (hquote : b.settlementPrice.quote.amount < 2 ^ 63)
    (hamount : 0 ≤ op.amount.amount)
    (hbalance : op.amount.amount ≤ s.getBalance op.account op.amount.assetId)
    (hle : op.amount.amount ≤ supply) (hmax : b.redeemed op.amount.amount ≤ maxShareSupply)
    (hpayable : op.FeePayable s) :
    ∃ s₁ s', op.doApply s = .ok () s₁ ∧ adjustBalance op.account op.fee.neg s₁ = .ok () s' := by
  obtain ⟨settled, hmul⟩ :=
    (BitassetData.mul_settlementPrice_eq_ok hcovers hamount op.amount_fits.2 hquote).mpr hmax
  obtain rfl := BitassetData.mul_settlementPrice hcovers hamount op.amount_fits.2 hquote hmul
  have hredeemed := BitassetData.redeemed_nonneg hcovers hamount
  obtain ⟨d, hd, -⟩ := Option.map_eq_some_iff.mp hsupply
  -- the amount is taken
  have htake : ∃ t, adjustBalance op.account op.amount.neg s = .ok () { s with balances := t } := by
    refine adjustBalance_returns ?_
    change 0 ≤ s.getBalance op.account op.amount.assetId + -op.amount.amount
    linarith
  obtain ⟨t, htake⟩ := htake
  have htaken := fun i => adjustBalance_getBalance htake op.account i
  -- the fund pays
  let s₁ : Books := { s with
    balances := t
    bitassets := s.bitassets.modify op.amount.assetId
      (·.lessFund (b.redeemed op.amount.amount)) }
  have hgive : ∃ t', adjustBalance op.account ⟨b.redeemed op.amount.amount, b.shortBackingAsset⟩ s₁ =
      .ok () { s₁ with balances := t' } := by
    refine adjustBalance_returns ?_
    exact add_nonneg (getBalance_nonneg (adjustBalance_nonneg hbalances htake) _ _) hredeemed
  obtain ⟨t', hgive⟩ := hgive
  have hgiven := fun i => adjustBalance_getBalance hgive op.account i
  -- the fee is charged
  let s₂ : Books := { s₁ with
    balances := t'
    dynamicData := s.dynamicData.insert op.amount.assetId (d.supplied (-op.amount.amount)) }
  have hcharge : ∃ t'', adjustBalance op.account op.fee.neg s₂ = .ok () { s₂ with balances := t'' } := by
    refine adjustBalance_returns ?_
    have hleft : Books.getBalance s₂ op.account op.fee.assetId =
        s.getBalance op.account op.fee.assetId +
          (if (op.account, op.fee.assetId) = (op.account, op.amount.assetId) then -op.amount.amount
            else 0) +
          if (op.account, op.fee.assetId) = (op.account, b.shortBackingAsset) then
            b.redeemed op.amount.amount else 0 :=
      (hgiven op.fee.assetId).trans (congrArg (· + _) (htaken op.fee.assetId))
    unfold FeePayable at hpayable
    change 0 ≤ Books.getBalance s₂ op.account op.fee.assetId + -op.fee.amount
    rw [hleft]
    simp only [Prod.mk.injEq, true_and]
    split_ifs at hpayable ⊢ <;> linarith
  obtain ⟨t'', hcharge⟩ := hcharge
  refine ⟨s₂, _, ?_, hcharge⟩
  exact (doApply_eq_ok hb hsettled).mpr ⟨t, _, _, d, htake, hmul,
    BitassetData.redeemed_le_fund hcovers hle, hgive, hd, rfl⟩

/-! ### Holders of a settled asset -/

theorem Path.listed {L : Licence} {s s' : Books} (h : Path L s s') (hs : Listed s) : Listed s' :=
  h.keep Posting.listed Beside.listed hs

/-- The books of a chain on which nothing was minted. -/
structure Redeemable (s : Books) : Prop extends Covered s where
  listed : Listed s

theorem Steps.redeemable {S : Settings} (hS : ∀ s d, S.getProfit s d = d.getProfit s) {s₀ s : Books}
    (hgenesis : Genesis s₀) (h : Steps S (HonestEvent S) Elsewhere s₀ s) : Redeemable s ∧ s.Fits := by
  refine h.keep (fun hC he hfits hs => ?_) (fun hb hs => ?_) hgenesis.fits
    { hgenesis.covered with listed := hgenesis.listed }
  · have hpath := Event.path (L := .all) hs.toRegular (fun hL => absurd trivial hL) hfits
      (Event.licensed_all _ _) he
    exact { Event.covered hS hs.toCovered hfits hC he with listed := hpath.listed hs.listed }
  · exact { hb.covered hs.toCovered with listed := hb.toBeside.listed hs.listed }

/-- A holder asks for no more than the supply. -/
theorem Covered.amount_le_supply {s : Books} (hs : Covered s) {account k : ℕ} {amount supply : ℤ}
    (hbalance : amount ≤ s.getBalance account k) (hsupply : supplyOf s.dynamicData k = some supply) :
    amount ≤ supply :=
  calc amount ≤ s.getBalance account k := hbalance
    _ ≤ held s.balances k := getBalance_le_held hs.balances account k
    _ ≤ supply := hs.toSolvent.held_le_supply (hs.supplied k) hsupply

/-- What `asset_settle` asks of a settled asset: a feed, unless it is a prediction market, and a
payment that is not too large. -/
def BitassetData.Redeemable (b : BitassetData) (amount : ℤ) : Prop :=
  (b.isPredictionMarket = true ∨ b.currentFeed.settlementPrice.isNull = false) ∧
    b.redeemed amount ≤ maxShareSupply

theorem AssetSettle.feedSuffices_iff {b : BitassetData} (hsettled : b.hasSettlement = true) :
    FeedSuffices b ↔ b.isPredictionMarket = true ∨ b.currentFeed.settlementPrice.isNull = false := by
  unfold FeedSuffices
  split
  · next hmarket => exact ⟨fun _ => .inl hmarket, fun _ => hsettled⟩
  · next hmarket => exact ⟨.inr, fun h => h.resolve_left hmarket⟩

section Example

private def redeemAll : AssetSettle := { fee := ⟨20, core⟩, account := 10, amount := ⟨1000, 1⟩ }

private theorem steps_settleAll : Steps smallSettings (HonestEvent smallSettings) Elsewhere smallChain
    (afterEvents [settleAll, publishPrice, setProducer]) := by
  refine (((Steps.refl smallChain).afterEvents ⟨trivial, trivial⟩ ?_ ?_).afterEvents
    ⟨trivial, trivial⟩ ?_ ?_).afterEvents ⟨trivial, trivial⟩ ?_ ?_
  · decide
  · exact fits_afterEvents (by decide) (by decide)
  · decide
  · exact fits_afterEvents (by decide) (by decide)
  · decide
  · exact fits_afterEvents (by decide) (by decide)

end Example

end FinChain.Ledger
