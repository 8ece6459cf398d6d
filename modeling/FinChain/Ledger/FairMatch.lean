import FinChain.Ledger.OrderBook
import FinChain.Lib.TotalCorrectness

/-!
# Matching two limit orders

`match` of a new limit order, the taker, and one of the book, the maker, at the price of the maker. Two
conversions at this price, in opposite directions and both rounded down, decide which of the orders is
used up and what the other one gives for it. Both roundings are at the expense of who receives the
result: the taker loses less than one unit of what it receives when it is the smaller order, and the
maker less than one unit when it is (`FairExchange`).

One of the two orders is used up in any case, so each round of the loop of `apply_order` takes an order
out of the book (`MatchRound.fewer`), and the loop ends. What can keep a match from returning is an
amount above the largest share supply, or an account or asset that does not exist (`Books.CanFill`).
-/

namespace FinChain.Ledger

open Exec

/-! ### Orders -/

/-- All amounts of a limit order are positive, and of type `share_type`. -/
structure LimitOrder.Positive (o : LimitOrder) : Prop where
  forSale_pos : 0 < o.forSale
  forSale_lt : o.forSale < 2 ^ 63
  base_pos : 0 < o.sellPrice.base.amount
  base_lt : o.sellPrice.base.amount < 2 ^ 63
  quote_pos : 0 < o.sellPrice.quote.amount
  quote_lt : o.sellPrice.quote.amount < 2 ^ 63

/-- The orders sell what the other one asks for. -/
structure LimitOrder.Opposes (usd coreOrder : LimitOrder) : Prop where
  base : usd.sellPrice.base.assetId = coreOrder.sellPrice.quote.assetId
  quote : usd.sellPrice.quote.assetId = coreOrder.sellPrice.base.assetId
  assets_ne : usd.sellPrice.base.assetId ≠ usd.sellPrice.quote.assetId

theorem ite_eq_ok {ε α : Type} {p : Prop} [Decidable p] {a b : α} {e : ε} :
    (if p then .ok a else .error e : Except ε α) = .ok b ↔ p ∧ a = b := by
  constructor
  · intro h
    split at h
    · next hp => exact ⟨hp, Except.ok.inj h⟩
    · cases h
  · rintro ⟨hp, rfl⟩
    exact if_pos hp

/-- The number of limit orders. -/
def Books.limitCount (s : Books) : ℤ := s.limitOrders.total fun _ _ => (1 : ℤ)

namespace LimitOrder.Positive

variable {o : LimitOrder}

theorem mul_of_base (ho : o.Positive) {a : Asset} (hid : a.assetId = o.sellPrice.base.assetId)
    (ha : 0 ≤ a.amount) (ha' : a.amount < 2 ^ 63) :
    a.mul o.sellPrice = if a.amount * o.sellPrice.quote.amount / o.sellPrice.base.amount ≤ maxShareSupply
      then .ok ⟨a.amount * o.sellPrice.quote.amount / o.sellPrice.base.amount,
        o.sellPrice.quote.assetId⟩
      else .error .assertion := by
  have hsmall : a.amount < 2 ^ 64 := lt_trans ha' (by decide)
  have hquote : o.sellPrice.quote.amount < 2 ^ 64 := lt_trans ho.quote_lt (by decide)
  rw [Asset.mul_of_base hid, Asset.convert, uint128_mul ha hsmall ho.quote_pos.le hquote]
  simp only [ho.base_pos, true_and]

theorem mul_of_quote (ho : o.Positive) {a : Asset} (hid : a.assetId = o.sellPrice.quote.assetId)
    (hne : a.assetId ≠ o.sellPrice.base.assetId) (ha : 0 ≤ a.amount) (ha' : a.amount < 2 ^ 63) :
    a.mul o.sellPrice = if a.amount * o.sellPrice.base.amount / o.sellPrice.quote.amount ≤ maxShareSupply
      then .ok ⟨a.amount * o.sellPrice.base.amount / o.sellPrice.quote.amount,
        o.sellPrice.base.assetId⟩
      else .error .assertion := by
  have hsmall : a.amount < 2 ^ 64 := lt_trans ha' (by decide)
  have hbase : o.sellPrice.base.amount < 2 ^ 64 := lt_trans ho.base_lt (by decide)
  rw [Asset.mul, if_neg hne, if_pos hid, Asset.convert,
    uint128_mul ha hsmall ho.base_pos.le hbase]
  simp only [ho.quote_pos, true_and]

/-- What the prices of two orders that cross say about their amounts. -/
theorem crosses (ho : o.Positive) {o' : LimitOrder} (ho' : o'.Positive) (hop : o.Opposes o')
    (h : o.Crosses o') : o.sellPrice.quote.amount * o'.sellPrice.quote.amount ≤
      o'.sellPrice.base.amount * o.sellPrice.base.amount := by
  obtain ⟨-, -, hge⟩ := h
  have hsmall : ∀ {x : ℤ}, x < 2 ^ 63 → x < 2 ^ 64 := fun hx => lt_trans hx (by decide)
  have hleft : o.sellPrice.cross o'.sellPrice.inv =
      o'.sellPrice.base.amount * o.sellPrice.base.amount :=
    Price.cross_eq ho'.base_pos.le (hsmall ho'.base_lt) ho.base_pos.le (hsmall ho.base_lt)
  have hright : o'.sellPrice.inv.cross o.sellPrice =
      o.sellPrice.quote.amount * o'.sellPrice.quote.amount :=
    Price.cross_eq ho.quote_pos.le (hsmall ho.quote_lt) ho'.quote_pos.le (hsmall ho'.quote_lt)
  rw [Price.ge, Price.lt_of_same (a := o.sellPrice) (b := o'.sellPrice.inv) hop.base hop.quote, hleft,
    hright] at hge
  simpa only [Bool.not_eq_true', decide_eq_false_iff_not, not_lt] using hge

end LimitOrder.Positive

/-! ### The amounts -/

/-- A fair exchange: `usd` gives `pays` and receives `receives`, at the price of `coreOrder`. -/
structure FairExchange (usd coreOrder : LimitOrder) (receives pays : Asset) : Prop where
  pays_id : pays.assetId = usd.sellPrice.base.assetId
  receives_id : receives.assetId = usd.sellPrice.quote.assetId
  pays_nonneg : 0 ≤ pays.amount
  pays_le : pays.amount ≤ usd.forSale
  receives_nonneg : 0 ≤ receives.amount
  receives_le : receives.amount ≤ coreOrder.forSale
  /-- One of the orders gives all it has. -/
  usedUp : pays = usd.amountForSale ∨ receives = coreOrder.amountForSale
  /-- The maker gets its limit price, up to less than one unit. -/
  maker : receives.amount * coreOrder.sellPrice.quote.amount <
    (pays.amount + 1) * coreOrder.sellPrice.base.amount
  /-- The taker gets its limit price, up to less than one unit. -/
  taker : pays.amount * usd.sellPrice.quote.amount < (receives.amount + 1) * usd.sellPrice.base.amount

/-- The taker is used up: it sells `u` at the maker's price of `b` for `q`, which is no worse than its
own price of `b'` for `q'`. -/
theorem fair_of_taker {u b q b' q' : ℤ} (hu : 0 ≤ u) (hb : 0 < b) (hq : 0 < q) (hb' : 0 < b')
    (hcross : q' * q ≤ b * b') :
    u * b / q * q < (u + 1) * b ∧ u * q' < (u * b / q + 1) * b' := by
  have hdown : u * b / q * q ≤ u * b := Int.ediv_mul_le _ hq.ne'
  have hup : u * b < (u * b / q + 1) * q := Int.lt_ediv_add_one_mul_self _ hq
  refine ⟨hdown.trans_lt (mul_lt_mul_of_pos_right (lt_add_one u) hb), ?_⟩
  have hproduct : u * q' * q < (u * b / q + 1) * b' * q := by
    calc u * q' * q = u * (q' * q) := mul_assoc _ _ _
      _ ≤ u * (b * b') := mul_le_mul_of_nonneg_left hcross hu
      _ = u * b * b' := (mul_assoc _ _ _).symm
      _ < (u * b / q + 1) * q * b' := mul_lt_mul_of_pos_right hup hb'
      _ = (u * b / q + 1) * b' * q := mul_right_comm _ _ _
  exact lt_of_mul_lt_mul_right hproduct hq.le

/-- The maker is used up: it sells `c` at its price of `b` for `q`. -/
theorem fair_of_maker {c b q b' q' : ℤ} (hc : 0 ≤ c) (hb : 0 < b) (hq : 0 < q) (hb' : 0 < b')
    (hcross : q' * q ≤ b * b') :
    c * q < (c * q / b + 1) * b ∧ c * q / b * q' < (c + 1) * b' := by
  have hdown : c * q / b * b ≤ c * q := Int.ediv_mul_le _ hb.ne'
  refine ⟨Int.lt_ediv_add_one_mul_self _ hb, ?_⟩
  have hpaid : 0 ≤ c * q / b := Int.ediv_nonneg (mul_nonneg hc hq.le) hb.le
  have hproduct : c * q / b * q' * q ≤ c * b' * q := by
    calc c * q / b * q' * q = c * q / b * (q' * q) := mul_assoc _ _ _
      _ ≤ c * q / b * (b * b') := mul_le_mul_of_nonneg_left hcross hpaid
      _ = c * q / b * b * b' := (mul_assoc _ _ _).symm
      _ ≤ c * q * b' := mul_le_mul_of_nonneg_right hdown hb'.le
      _ = c * b' * q := mul_right_comm _ _ _
  exact (le_of_mul_le_mul_right hproduct hq).trans_lt (mul_lt_mul_of_pos_right (lt_add_one c) hb')

/-- What `exchanged` computes: the taker is used up, or the maker is. -/
theorem exchanged_cases {usd coreOrder : LimitOrder} {receives pays : Asset}
    (husd : usd.Positive) (hcore : coreOrder.Positive) (hop : usd.Opposes coreOrder)
    (h : exchanged usd.amountForSale coreOrder.amountForSale coreOrder.sellPrice =
      .ok (receives, pays)) :
    (pays = usd.amountForSale ∧
      receives = ⟨usd.forSale * coreOrder.sellPrice.base.amount / coreOrder.sellPrice.quote.amount,
        coreOrder.sellPrice.base.assetId⟩ ∧
      usd.forSale ≤
        coreOrder.forSale * coreOrder.sellPrice.quote.amount / coreOrder.sellPrice.base.amount) ∨
    (receives = coreOrder.amountForSale ∧
      pays = ⟨coreOrder.forSale * coreOrder.sellPrice.quote.amount / coreOrder.sellPrice.base.amount,
        coreOrder.sellPrice.quote.assetId⟩ ∧
      coreOrder.forSale * coreOrder.sellPrice.quote.amount / coreOrder.sellPrice.base.amount <
        usd.forSale) := by
  have hne : usd.amountForSale.assetId ≠ coreOrder.sellPrice.base.assetId := by
    intro heq
    exact hop.assets_ne (heq.trans hop.quote.symm)
  have hmaker := hcore.mul_of_base (a := coreOrder.amountForSale) rfl hcore.forSale_pos.le
    hcore.forSale_lt
  unfold exchanged at h
  obtain ⟨wanted, hwanted, h⟩ := except_bind_eq_ok.mp h
  have hwanted' := hwanted
  rw [hmaker] at hwanted'
  obtain ⟨-, rfl⟩ := ite_eq_ok.mp hwanted'
  obtain ⟨fits, hfits, h⟩ := except_bind_eq_ok.mp h
  obtain ⟨-, hle⟩ := Asset.le_eq_ok hfits
  cases fits with
  | true =>
    rw [if_pos rfl] at h
    obtain ⟨received, hreceived, h⟩ := except_bind_eq_ok.mp h
    cases h
    rw [hcore.mul_of_quote (a := usd.amountForSale) hop.base hne husd.forSale_pos.le husd.forSale_lt]
      at hreceived
    obtain ⟨-, rfl⟩ := ite_eq_ok.mp hreceived
    exact .inl ⟨rfl, rfl, hle.mp rfl⟩
  | false =>
    rw [if_neg Bool.false_ne_true, hwanted] at h
    cases h
    refine .inr ⟨rfl, rfl, not_le.mp fun hfit => ?_⟩
    exact Bool.false_ne_true (hle.mpr hfit)

/-- **The amounts that are exchanged** are fair. -/
theorem fairExchange_of_exchanged {usd coreOrder : LimitOrder} {receives pays : Asset}
    (husd : usd.Positive) (hcore : coreOrder.Positive) (hop : usd.Opposes coreOrder)
    (hcross : usd.Crosses coreOrder)
    (h : exchanged usd.amountForSale coreOrder.amountForSale coreOrder.sellPrice =
      .ok (receives, pays)) : FairExchange usd coreOrder receives pays := by
  have hle := husd.crosses hcore hop hcross
  have hbase := hcore.base_pos
  have hquote := hcore.quote_pos
  rcases exchanged_cases husd hcore hop h with ⟨rfl, rfl, hfits⟩ | ⟨rfl, rfl, hfits⟩
  · obtain ⟨hmaker, htaker⟩ := fair_of_taker husd.forSale_pos.le hbase hquote husd.base_pos hle
    exact ⟨rfl, hop.quote.symm, husd.forSale_pos.le, le_rfl,
      Int.ediv_nonneg (mul_nonneg husd.forSale_pos.le hbase.le) hquote.le,
      div_mul_div_le hbase hquote hfits, .inl rfl, hmaker, htaker⟩
  · obtain ⟨hmaker, htaker⟩ := fair_of_maker hcore.forSale_pos.le hbase hquote husd.base_pos hle
    exact ⟨hop.base.symm, hop.quote.symm,
      Int.ediv_nonneg (mul_nonneg hcore.forSale_pos.le hquote.le) hbase.le, hfits.le,
      hcore.forSale_pos.le, le_rfl, .inr rfl, hmaker, htaker⟩

/-! ### Rounds of the loop -/

/-- What `fill_order` does to the number of limit orders. -/
theorem limitCount_fill {id : ℕ} {pays receives : Asset} {cull filled : Bool} {s s' : Books}
    (h : fillLimitOrder id pays receives cull s = .ok filled s') :
    s'.limitCount = s.limitCount - if filled then 1 else 0 := by
  obtain ⟨o, s₁, ho, -, -, hpaid, hfill⟩ := fillLimitOrder_ok h
  have hsame : s₁.limitOrders = s.limitOrders := by rw [hpaid.rest]
  unfold Books.limitCount
  cases hfill with
  | all =>
    change (s₁.limitOrders.erase id).total _ = _
    rw [hsame, Index.total_erase _ ho, if_pos rfl]
  | part =>
    change (s₁.limitOrders.modify id _).total _ = _
    rw [hsame, Index.total_modify _ _ ho, sub_self, if_neg Bool.false_ne_true, add_zero, sub_zero]
  | culled =>
    change (s₁.limitOrders.erase id).total _ = _
    rw [hsame, Index.total_erase _ ho, if_pos rfl]

theorem Books.limitCount_nonneg (s : Books) : 0 ≤ s.limitCount :=
  Index.total_nonneg fun _ _ _ => zero_le_one

/-- The two fills that `match` consists of. -/
theorem matchLimitOrders_fills {usdId coreId : ℕ} {usd coreOrder : LimitOrder} {price : Price}
    {filled : Bool × Bool} {s s' : Books} (husd : s.limitOrders.lookup usdId = some usd)
    (hcore : s.limitOrders.lookup coreId = some coreOrder)
    (h : matchLimitOrders usdId coreId price s = .ok filled s') :
    ∃ receives pays s₁,
      exchanged usd.amountForSale coreOrder.amountForSale price = .ok (receives, pays) ∧
      fillLimitOrder usdId pays receives false s = .ok filled.1 s₁ ∧
      fillLimitOrder coreId receives pays true s₁ = .ok filled.2 s' := by
  unfold matchLimitOrders at h
  rw [get_bind] at h
  obtain ⟨usd', husd', h⟩ := require_bind_eq_ok.mp h
  obtain ⟨core', hcore', h⟩ := require_bind_eq_ok.mp h
  rw [husd] at husd'
  rw [hcore] at hcore'
  cases husd'
  cases hcore'
  obtain ⟨⟨receives, pays⟩, hamounts, h⟩ := lift_bind_eq_ok.mp h
  obtain ⟨usdFilled, s₁, hfirst, h⟩ := bind_eq_ok.mp h
  obtain ⟨coreFilled, s₂, hsecond, h⟩ := bind_eq_ok.mp h
  obtain ⟨rfl, rfl⟩ := pure_eq_ok.mp h
  exact ⟨receives, pays, s₁, hamounts, hfirst, hsecond⟩

/-- A round of the loop of `apply_order` after which the loop goes on, from `s` to `s'`. -/
def MatchRound (orderId : ℕ) (s' s : Books) : Prop :=
  ∃ id old, s.limitOrders.lookup id = some old ∧
    matchLimitOrders orderId id old.sellPrice s = .ok (false, true) s'

theorem MatchRound.fewer {orderId : ℕ} {s s' : Books} (h : MatchRound orderId s' s) :
    s'.limitCount < s.limitCount := by
  obtain ⟨id, old, hold, h⟩ := h
  have hlookup := h
  unfold matchLimitOrders at hlookup
  rw [get_bind] at hlookup
  obtain ⟨new, hnew, -⟩ := require_bind_eq_ok.mp hlookup
  obtain ⟨receives, pays, s₁, -, hfirst, hsecond⟩ := matchLimitOrders_fills hnew hold h
  have hcount := limitCount_fill hfirst
  rw [if_neg Bool.false_ne_true, sub_zero] at hcount
  rw [limitCount_fill hsecond, if_pos rfl, hcount]
  exact sub_one_lt _

/-- **The loop of `apply_order` terminates**, in whichever order it finds the orders of the book. -/
theorem matchRound_wellFounded (orderId : ℕ) : WellFounded (MatchRound orderId) := by
  refine Subrelation.wf (r := InvImage (· < ·) fun s : Books => s.limitCount.toNat) ?_
    (InvImage.wf _ Nat.lt_wfRel.wf)
  intro s' s h
  have hfewer := h.fewer
  exact (Int.toNat_lt_toNat (s'.limitCount_nonneg.trans_lt hfewer)).mpr hfewer

/-! ### When a match returns -/

/-- What filling an order needs from the objects: the statistics of its seller and the asset that it
receives, and an amount to receive that is no larger than the largest share supply. -/
structure Books.CanFill (s : Books) (o : LimitOrder) : Prop where
  statistics : ∃ x, s.statistics.lookup o.seller = some x
  asset : ∃ a, s.assets.lookup o.sellPrice.quote.assetId = some a
  dynamicData : ∃ d, s.dynamicData.lookup o.sellPrice.quote.assetId = some d
  amountToReceive : ∃ a, o.amountToReceive = .ok a

/-- No asset and no account is removed. -/
structure Remains (s s' : Books) : Prop where
  assets : s'.assets = s.assets
  statistics : ∀ {k x}, s.statistics.lookup k = some x → ∃ y, s'.statistics.lookup k = some y
  dynamicData : ∀ {k x}, s.dynamicData.lookup k = some x → ∃ y, s'.dynamicData.lookup k = some y

/-- A payment leaves the orders alone, too. -/
structure Payment (s s' : Books) : Prop extends Remains s s' where
  limitOrders : s'.limitOrders = s.limitOrders

theorem Remains.refl (s : Books) : Remains s s :=
  ⟨rfl, fun h => ⟨_, h⟩, fun h => ⟨_, h⟩⟩

theorem Remains.trans {s s₁ s' : Books} (h : Remains s s₁) (h' : Remains s₁ s') : Remains s s' := by
  refine ⟨h'.assets.trans h.assets, fun hx => ?_, fun hx => ?_⟩
  · obtain ⟨y, hy⟩ := h.statistics hx
    exact h'.statistics hy
  · obtain ⟨y, hy⟩ := h.dynamicData hx
    exact h'.dynamicData hy

theorem Payment.refl (s : Books) : Payment s s := ⟨.refl s, rfl⟩

theorem Payment.trans {s s₁ s' : Books} (h : Payment s s₁) (h' : Payment s₁ s') : Payment s s' :=
  ⟨h.toRemains.trans h'.toRemains, h'.limitOrders.trans h.limitOrders⟩

theorem Books.CanFill.remains {s s' : Books} {o : LimitOrder} (h : s.CanFill o) (hs : Remains s s') :
    s'.CanFill o := by
  obtain ⟨x, hx⟩ := h.statistics
  obtain ⟨a, ha⟩ := h.asset
  obtain ⟨d, hd⟩ := h.dynamicData
  exact ⟨hs.statistics hx, ⟨a, by rw [hs.assets, ha]⟩, hs.dynamicData hd, h.amountToReceive⟩

theorem lookup_insert_of_some {κ α : Type} [DecidableEq κ] {t : Table κ α} {k k' : κ} {x a : α}
    (h : t.lookup k' = some x) : ∃ y, (t.insert k a).lookup k' = some y := by
  by_cases hk : k' = k
  · exact ⟨a, by rw [hk, AList.lookup_insert]⟩
  · exact ⟨x, by rw [AList.lookup_insert_ne hk, h]⟩

section Payments

variable {s : Books}

theorem achieves_adjustBalance {account : ℕ} {delta : Asset} (h : 0 ≤ delta.amount) :
    Achieves (adjustBalance account delta) (fun _ s' => Payment s s') s := by
  unfold adjustBalance
  refine achieves_ite (fun _ => achieves_pure (.refl s)) fun hzero => achieves_get_bind ?_
  cases s.balances.lookup (account, delta.assetId) with
  | none =>
    refine achieves_assert_bind (lt_of_le_of_ne h (Ne.symm hzero)) (achieves_update ?_)
    exact ⟨⟨rfl, fun hx => ⟨_, hx⟩, fun hx => ⟨_, hx⟩⟩, rfl⟩
  | some b =>
    refine achieves_assert_bind (fun hneg => absurd hneg (not_lt.mpr h)) (achieves_update ?_)
    exact ⟨⟨rfl, fun hx => ⟨_, hx⟩, fun hx => ⟨_, hx⟩⟩, rfl⟩

theorem achieves_modifyStatistics {account : ℕ} {g : AccountStatistics → AccountStatistics}
    (h : ∃ x, s.statistics.lookup account = some x) :
    Achieves (modifyStatistics account g) (fun _ s' => Payment s s') s := by
  obtain ⟨x, hx⟩ := h
  unfold modifyStatistics
  refine achieves_get_bind (achieves_require_bind hx (achieves_update ?_))
  exact ⟨⟨rfl, lookup_insert_of_some, fun hd => ⟨_, hd⟩⟩, rfl⟩

theorem achieves_modifyDynamicData {k : ℕ} {g : AssetDynamicData → AssetDynamicData}
    (h : ∃ d, s.dynamicData.lookup k = some d) :
    Achieves (modifyDynamicData k g) (fun _ s' => Payment s s') s := by
  obtain ⟨d, hd⟩ := h
  unfold modifyDynamicData
  refine achieves_get_bind (achieves_require_bind hd (achieves_update ?_))
  exact ⟨⟨rfl, fun hx => ⟨_, hx⟩, lookup_insert_of_some⟩, rfl⟩

theorem calculateMarketFee_returns (a : AssetObject) {x : Asset} (hx : 0 ≤ x.amount)
    (hx' : x.amount < 2 ^ 63) : ∃ fee, calculateMarketFee a x = .ok fee ∧ fee ≤ x.amount := by
  have hpercent : (a.options.marketFeePercent : ℤ) ≤ hundredPercent := by
    exact_mod_cast a.options.marketFeePercent_le
  have hpercent₀ : (0 : ℤ) ≤ a.options.marketFeePercent := by positivity
  have hfee : uint128 (uint128 x.amount * a.options.marketFeePercent) / hundredPercent ≤ x.amount := by
    rw [uint128_mul hx (lt_trans hx' (by decide)) hpercent₀ (hpercent.trans_lt (by decide))]
    exact Int.ediv_le_of_le_mul (by decide) (mul_le_mul_of_nonneg_left hpercent hx)
  unfold calculateMarketFee
  dsimp only
  split
  · exact ⟨0, rfl, hx⟩
  · rw [if_pos (hfee.trans_lt (lt_trans hx' (by decide)))]
    exact ⟨_, rfl, (min_le_left _ _).trans hfee⟩

theorem achieves_payMarketFees {receives : Asset} {a : AssetObject}
    (ha : s.assets.lookup receives.assetId = some a)
    (hd : ∃ d, s.dynamicData.lookup receives.assetId = some d) (hx : 0 ≤ receives.amount)
    (hx' : receives.amount < 2 ^ 63) :
    Achieves (payMarketFees receives) (fun fee s' => fee ≤ receives.amount ∧ Payment s s') s := by
  obtain ⟨fee, hfee, hle⟩ := calculateMarketFee_returns a hx hx'
  have hcollect : Achieves (collectFee receives.assetId fee) (fun _ s' => Payment s s') s :=
    achieves_ite (fun _ => achieves_modifyDynamicData hd) fun _ => achieves_pure (.refl s)
  refine achieves_get_bind (achieves_require_bind ha (achieves_lift_bind hfee ?_))
  exact hcollect.bind fun _ s' hs' => achieves_pure ⟨hle, hs'⟩

theorem achieves_payOrder {receiver : ℕ} {receives pays : Asset} (hx : 0 ≤ receives.amount)
    (h : ∃ x, s.statistics.lookup receiver = some x) :
    Achieves (payOrder receiver receives pays) (fun _ s' => Payment s s') s :=
  (achieves_modifyStatistics h).bind fun _ _ hs₁ =>
    (achieves_adjustBalance hx).mono fun _ _ hs' => hs₁.trans hs'

theorem achieves_payDeferredFee {o : LimitOrder} (h : ∃ x, s.statistics.lookup o.seller = some x) :
    Achieves (payDeferredFee o) (fun _ s' => Payment s s') s :=
  achieves_ite (fun _ => achieves_get_bind (achieves_modifyStatistics h)) fun _ =>
    achieves_pure (.refl s)

end Payments

/-- What is left of an order asks for no more than the whole. -/
theorem LimitOrder.Positive.amountToReceive_reduced {o : LimitOrder} (ho : o.Positive) {x : ℤ}
    (hx : 0 ≤ x) (hxle : x ≤ o.forSale) (h : ∃ a, o.amountToReceive = .ok a) :
    ∃ a, (o.reduced x).amountToReceive = .ok a := by
  obtain ⟨a, ha⟩ := h
  have hwhole := ho.mul_of_base (a := o.amountForSale) rfl ho.forSale_pos.le ho.forSale_lt
  have hrest := ho.mul_of_base (a := (o.reduced x).amountForSale) rfl (sub_nonneg.mpr hxle)
    ((sub_le_self _ hx).trans_lt ho.forSale_lt)
  unfold amountToReceive at ha
  rw [hwhole] at ha
  obtain ⟨hle, -⟩ := ite_eq_ok.mp ha
  have hless : (o.forSale - x) * o.sellPrice.quote.amount / o.sellPrice.base.amount ≤
      o.forSale * o.sellPrice.quote.amount / o.sellPrice.base.amount :=
    Int.ediv_le_ediv ho.base_pos (mul_le_mul_of_nonneg_right (sub_le_self _ hx) ho.quote_pos.le)
  exact ⟨_, hrest.trans (if_pos (hless.trans hle))⟩

theorem achieves_cancelLimitOrder {id : ℕ} {o : LimitOrder} {s : Books}
    (ho : s.limitOrders.lookup id = some o) (hforSale : 0 ≤ o.forSale)
    (h : ∃ x, s.statistics.lookup o.seller = some x) :
    Achieves (cancelLimitOrder id) (fun _ s' => Remains s s') s := by
  refine achieves_get_bind (achieves_require_bind ho ?_)
  refine (achieves_modifyStatistics h).bind fun _ s₁ hs₁ => ?_
  refine (achieves_adjustBalance hforSale).bind fun _ s₂ hs₂ => ?_
  refine (achieves_adjustBalance (Int.natCast_nonneg _)).bind fun _ s₃ hs₃ => achieves_update ?_
  have hpaid := (hs₁.toRemains.trans hs₂.toRemains).trans hs₃.toRemains
  exact ⟨hpaid.assets, hpaid.statistics, hpaid.dynamicData⟩

theorem achieves_reduceLimitOrder {id : ℕ} {o : LimitOrder} {pays : Asset} {cull : Bool} {s : Books}
    (ho : s.limitOrders.lookup id = some o) (hpos : o.Positive) (hpays : 0 ≤ pays.amount)
    (hle : pays.amount ≤ o.forSale) (hcan : s.CanFill o) :
    Achieves (reduceLimitOrder id o pays cull) (fun _ s' => Remains s s') s := by
  refine achieves_ite (fun _ => ?_) fun _ => ?_
  · refine Achieves.bind (achieves_update (Q := fun _ s' => Remains s s') ?_) fun _ s' hs' =>
      achieves_pure hs'
    exact ⟨rfl, fun h => ⟨_, h⟩, fun h => ⟨_, h⟩⟩
  -- part of the order is left
  have hless : Remains s { s with
      limitOrders := s.limitOrders.modify id (·.reduced pays.amount) } :=
    ⟨rfl, fun h => ⟨_, h⟩, fun h => ⟨_, h⟩⟩
  have hleft : (s.limitOrders.modify id (·.reduced pays.amount)).lookup id =
      some (o.reduced pays.amount) := by
    rw [Index.lookup_modify, if_pos rfl, ho, Option.map_some]
  obtain ⟨a, ha⟩ := hpos.amountToReceive_reduced hpays hle hcan.amountToReceive
  refine Achieves.bind (achieves_update (Q := fun _ s₁ => s₁ = { s with
    limitOrders := s.limitOrders.modify id (·.reduced pays.amount) }) rfl) fun _ s₁ hs₁ => ?_
  rw [hs₁]
  refine achieves_ite (fun _ => ?_) fun _ => achieves_pure hless
  refine achieves_get_bind (achieves_require_bind hleft (achieves_lift_bind ha ?_))
  refine achieves_ite (fun _ => ?_) fun _ => achieves_pure hless
  have hcancel := achieves_cancelLimitOrder (s := { s with
    limitOrders := s.limitOrders.modify id (·.reduced pays.amount) }) hleft (sub_nonneg.mpr hle)
    (hcan.remains hless).statistics
  exact hcancel.bind fun _ s' hs' => achieves_pure (hless.trans hs')

/-- **`fill_order`** of a limit order returns. -/
theorem achieves_fillLimitOrder {id : ℕ} {o : LimitOrder} {pays receives : Asset} {cull : Bool}
    {s : Books} (ho : s.limitOrders.lookup id = some o) (hpos : o.Positive) (hcan : s.CanFill o)
    (hpaysId : pays.assetId = o.sellPrice.base.assetId)
    (hreceivesId : receives.assetId = o.sellPrice.quote.assetId)
    (hne : o.sellPrice.base.assetId ≠ o.sellPrice.quote.assetId) (hpays : 0 ≤ pays.amount)
    (hle : pays.amount ≤ o.forSale) (hreceives : 0 ≤ receives.amount)
    (hreceives' : receives.amount < 2 ^ 63) :
    Achieves (fillLimitOrder id pays receives cull) (fun _ s' => Remains s s') s := by
  obtain ⟨a, ha⟩ := hcan.asset
  rw [← hreceivesId] at ha
  have hd := hcan.dynamicData
  rw [← hreceivesId] at hd
  refine achieves_get_bind (achieves_require_bind ho ?_)
  refine achieves_assert_bind hpaysId.symm (achieves_assert_bind ?_ ?_)
  · rw [hpaysId, hreceivesId]
    exact hne
  refine (achieves_payMarketFees ha hd hreceives hreceives').bind fun fee s₁ ⟨hfee, hs₁⟩ => ?_
  have hcan₁ := hcan.remains hs₁.toRemains
  refine (achieves_payOrder (sub_nonneg.mpr hfee) hcan₁.statistics).bind fun _ s₂ hs₂ => ?_
  have hcan₂ := hcan₁.remains hs₂.toRemains
  refine (achieves_payDeferredFee hcan₂.statistics).bind fun _ s₃ hs₃ => ?_
  have hpaid := (hs₁.trans hs₂).trans hs₃
  have ho₃ : s₃.limitOrders.lookup id = some o := by rw [hpaid.limitOrders, ho]
  exact (achieves_reduceLimitOrder ho₃ hpos hpays hle (hcan₂.remains hs₃.toRemains)).mono
    fun _ _ hs' => hpaid.toRemains.trans hs'

/-- The amounts of two orders that can be filled are found, unless the maker sells more than the
largest share supply. -/
theorem exchanged_returns {usd coreOrder : LimitOrder} (husd : usd.Positive)
    (hcore : coreOrder.Positive) (hop : usd.Opposes coreOrder)
    (hreceive : ∃ a, coreOrder.amountToReceive = .ok a) (hmax : coreOrder.forSale ≤ maxShareSupply) :
    ∃ receives pays, exchanged usd.amountForSale coreOrder.amountForSale coreOrder.sellPrice =
      .ok (receives, pays) := by
  have hne : usd.amountForSale.assetId ≠ coreOrder.sellPrice.base.assetId := by
    intro heq
    exact hop.assets_ne (heq.trans hop.quote.symm)
  obtain ⟨wanted, hwanted⟩ := hreceive
  unfold LimitOrder.amountToReceive at hwanted
  have hmaker := hwanted
  rw [hcore.mul_of_base (a := coreOrder.amountForSale) rfl hcore.forSale_pos.le hcore.forSale_lt]
    at hmaker
  obtain ⟨-, hamount⟩ := ite_eq_ok.mp hmaker
  have hid : usd.amountForSale.assetId = wanted.assetId := by
    rw [← hamount]
    exact hop.base
  unfold exchanged
  rw [hwanted]
  change ∃ receives pays, (usd.amountForSale.le wanted >>= fun fits => _) = _
  rw [Asset.le_of_same hid]
  by_cases hfits : usd.forSale ≤ wanted.amount
  · -- the taker receives no more than the maker sells
    have htaker := hcore.mul_of_quote (a := usd.amountForSale) hop.base hne husd.forSale_pos.le
      husd.forSale_lt
    have hless : usd.forSale ≤
        coreOrder.forSale * coreOrder.sellPrice.quote.amount / coreOrder.sellPrice.base.amount := by
      rw [← hamount] at hfits
      exact hfits
    have hle : usd.amountForSale.amount * coreOrder.sellPrice.base.amount /
        coreOrder.sellPrice.quote.amount ≤ maxShareSupply :=
      (div_mul_div_le hcore.base_pos hcore.quote_pos hless).trans hmax
    rw [if_pos hle] at htaker
    rw [show decide (usd.amountForSale.amount ≤ wanted.amount) = true from decide_eq_true hfits]
    have hreturn : (usd.amountForSale.mul coreOrder.sellPrice >>= fun receives =>
        (pure (receives, usd.amountForSale) : Except LedgerError (Asset × Asset))) = .ok (_, _) :=
      except_bind_eq_ok.mpr ⟨_, htaker, rfl⟩
    exact ⟨_, _, hreturn⟩
  · rw [show decide (usd.amountForSale.amount ≤ wanted.amount) = false from decide_eq_false hfits]
    exact ⟨_, _, rfl⟩

/-- Two orders that can be filled are matched. -/
theorem matchLimitOrders_returns {usdId coreId : ℕ} {usd coreOrder : LimitOrder} {s : Books}
    (husdLookup : s.limitOrders.lookup usdId = some usd)
    (hcoreLookup : s.limitOrders.lookup coreId = some coreOrder) (husd : usd.Positive)
    (hcore : coreOrder.Positive) (hop : usd.Opposes coreOrder) (hcross : usd.Crosses coreOrder)
    (husdCan : s.CanFill usd) (hcoreCan : s.CanFill coreOrder)
    (hmax : coreOrder.forSale ≤ maxShareSupply) :
    ∃ filled s', matchLimitOrders usdId coreId coreOrder.sellPrice s = .ok filled s' := by
  obtain ⟨receives, pays, hamounts⟩ := exchanged_returns husd hcore hop hcoreCan.amountToReceive hmax
  have hfair := fairExchange_of_exchanged husd hcore hop hcross hamounts
  have hids : coreId ≠ usdId := by
    rintro rfl
    rw [husdLookup] at hcoreLookup
    cases hcoreLookup
    exact hop.assets_ne hop.base
  obtain ⟨usdFilled, s₁, hfirst, hs₁⟩ := @achieves_fillLimitOrder _ _ _ _ false _ husdLookup husd husdCan
    hfair.pays_id hfair.receives_id hop.assets_ne hfair.pays_nonneg hfair.pays_le
    hfair.receives_nonneg (hfair.receives_le.trans_lt hcore.forSale_lt)
  have hcoreLookup₁ : s₁.limitOrders.lookup coreId = some coreOrder := by
    rw [fillLimitOrder_lookup husdLookup hfirst, if_neg hids, hcoreLookup]
  have hne : coreOrder.sellPrice.base.assetId ≠ coreOrder.sellPrice.quote.assetId := by
    rw [← hop.quote, ← hop.base]
    exact hop.assets_ne.symm
  obtain ⟨coreFilled, s', hsecond, -⟩ := @achieves_fillLimitOrder _ _ _ _ true _ hcoreLookup₁ hcore
    (hcoreCan.remains hs₁) (hfair.receives_id.trans hop.quote) (hfair.pays_id.trans hop.base) hne
    hfair.receives_nonneg hfair.receives_le hfair.pays_nonneg (hfair.pays_le.trans_lt husd.forSale_lt)
  refine ⟨(usdFilled, coreFilled), s', ?_⟩
  unfold matchLimitOrders
  rw [get_bind]
  refine require_bind_eq_ok.mpr ⟨usd, husdLookup, require_bind_eq_ok.mpr ⟨coreOrder, hcoreLookup, ?_⟩⟩
  refine lift_bind_eq_ok.mpr ⟨(receives, pays), hamounts, ?_⟩
  exact bind_eq_ok.mpr ⟨usdFilled, s₁, hfirst, bind_eq_ok.mpr ⟨coreFilled, s', hsecond, rfl⟩⟩

/-! ### A fair match -/

/-- What `match` of `usd`, the new order, and `coreOrder` of the book has done when it returns. -/
structure FairMatch (usdId coreId : ℕ) (usd coreOrder : LimitOrder) (filled : Bool × Bool)
    (s s' : Books) : Prop where
  /-- `match` returns 1, 2 or 3. -/
  nonzero : filled ≠ (false, false)
  /-- What the one pays is what the other receives. -/
  fills : ∃ receives pays s₁, FairExchange usd coreOrder receives pays ∧
    fillLimitOrder usdId pays receives false s = .ok filled.1 s₁ ∧
    fillLimitOrder coreId receives pays true s₁ = .ok filled.2 s'
  /-- An order that was filled is gone. -/
  gone : (filled.1 = true → s'.limitOrders.lookup usdId = none) ∧
    (filled.2 = true → s'.limitOrders.lookup coreId = none)
  fewer : s'.limitCount < s.limitCount

theorem fairMatch_of_match {usdId coreId : ℕ} {usd coreOrder : LimitOrder} {filled : Bool × Bool}
    {s s' : Books} (husdLookup : s.limitOrders.lookup usdId = some usd)
    (hcoreLookup : s.limitOrders.lookup coreId = some coreOrder) (husd : usd.Positive)
    (hcore : coreOrder.Positive) (hop : usd.Opposes coreOrder) (hcross : usd.Crosses coreOrder)
    (h : matchLimitOrders usdId coreId coreOrder.sellPrice s = .ok filled s') :
    FairMatch usdId coreId usd coreOrder filled s s' := by
  obtain ⟨receives, pays, s₁, hamounts, hfirst, hsecond⟩ :=
    matchLimitOrders_fills husdLookup hcoreLookup h
  have hfair := fairExchange_of_exchanged husd hcore hop hcross hamounts
  have hids : coreId ≠ usdId := by
    rintro rfl
    rw [husdLookup] at hcoreLookup
    cases hcoreLookup
    exact hop.assets_ne hop.base
  have hfirstLookup := fillLimitOrder_lookup husdLookup hfirst
  have hcoreLookup₁ : s₁.limitOrders.lookup coreId = some coreOrder := by
    rw [hfirstLookup, if_neg hids, hcoreLookup]
  have hsecondLookup := fillLimitOrder_lookup hcoreLookup₁ hsecond
  have hone : filled.1 = true ∨ filled.2 = true := by
    rcases hfair.usedUp with hall | hall
    · exact .inl (fillLimitOrder_all husdLookup hall hfirst)
    · exact .inr (fillLimitOrder_all hcoreLookup₁ hall hsecond)
  refine ⟨?_, ⟨receives, pays, s₁, hfair, hfirst, hsecond⟩, ⟨fun hfilled => ?_, fun hfilled => ?_⟩, ?_⟩
  · rintro rfl
    simp at hone
  · rw [hsecondLookup, if_neg hids.symm, hfirstLookup, if_pos rfl, if_pos hfilled]
  · rw [hsecondLookup, if_pos rfl, if_pos hfilled]
  · have hcount₁ := limitCount_fill hfirst
    have hcount := limitCount_fill hsecond
    rw [hcount, hcount₁]
    rcases hone with hfilled | hfilled
    · rw [if_pos hfilled]
      split <;> linarith
    · rw [if_pos hfilled]
      split <;> linarith

/-- **Matching two limit orders is fair**, and returns when both can be filled; whatever the orders of
the book, the loop of `apply_order` ends. -/
theorem match_fair {usdId coreId : ℕ} {usd coreOrder : LimitOrder} {s : Books}
    (husdLookup : s.limitOrders.lookup usdId = some usd)
    (hcoreLookup : s.limitOrders.lookup coreId = some coreOrder) (husd : usd.Positive)
    (hcore : coreOrder.Positive) (hop : usd.Opposes coreOrder) (hcross : usd.Crosses coreOrder) :
    (∀ filled s', matchLimitOrders usdId coreId coreOrder.sellPrice s = .ok filled s' →
      FairMatch usdId coreId usd coreOrder filled s s') ∧
    (s.CanFill usd → s.CanFill coreOrder → coreOrder.forSale ≤ maxShareSupply →
      ∃ filled s', matchLimitOrders usdId coreId coreOrder.sellPrice s = .ok filled s') ∧
    WellFounded (MatchRound usdId) := by
  refine ⟨fun filled s' h => ?_, fun husdCan hcoreCan hmax => ?_, matchRound_wellFounded usdId⟩
  · exact fairMatch_of_match husdLookup hcoreLookup husd hcore hop hcross h
  · exact matchLimitOrders_returns husdLookup hcoreLookup husd hcore hop hcross husdCan hcoreCan hmax

section Example

/-- The first account sells 10 of the bitasset for 3 of core. -/
private def seller₃ : LimitOrder := ⟨1600000000, 10, 10, ⟨⟨10, 1⟩, ⟨3, core⟩⟩, 0⟩

/-- The second account sells 7 of core for 15 of the bitasset. -/
private def buyer₇ : LimitOrder := ⟨1600000000, 11, 7, ⟨⟨7, core⟩, ⟨15, 1⟩⟩, 0⟩

private def crossed : Books :=
  { smallChain with limitOrders := (smallChain.limitOrders.create buyer₇).create seller₃ }

/-- The new order is used up: its 10 are worth 4 of core at the maker's price. -/
theorem match_fair_taker :
    (∃ filled s', matchLimitOrders 1 0 buyer₇.sellPrice crossed = .ok filled s' ∧
      FairMatch 1 0 seller₃ buyer₇ filled crossed s') ∧
    exchanged seller₃.amountForSale buyer₇.amountForSale buyer₇.sellPrice =
      .ok (⟨4, core⟩, ⟨10, 1⟩) := by
  have hseller : crossed.limitOrders.lookup 1 = some seller₃ := by decide +kernel
  have hbuyer : crossed.limitOrders.lookup 0 = some buyer₇ := by decide +kernel
  have hstatistics : ∀ k, k = 10 ∨ k = 11 → ∃ x, crossed.statistics.lookup k = some x := by
    rintro k (rfl | rfl)
    · exact ⟨_, rfl⟩
    · exact ⟨_, rfl⟩
  have hsellerCan : crossed.CanFill seller₃ :=
    ⟨hstatistics 10 (.inl rfl), ⟨_, rfl⟩, ⟨_, rfl⟩, ⟨⟨3, core⟩, by decide +kernel⟩⟩
  have hbuyerCan : crossed.CanFill buyer₇ :=
    ⟨hstatistics 11 (.inr rfl), ⟨_, rfl⟩, ⟨_, rfl⟩, ⟨⟨15, 1⟩, by decide +kernel⟩⟩
  obtain ⟨hfair, hreturns, -⟩ := match_fair hseller hbuyer
    ⟨by decide, by decide, by decide, by decide, by decide, by decide⟩
    ⟨by decide, by decide, by decide, by decide, by decide, by decide⟩
    ⟨rfl, rfl, by decide⟩ ⟨rfl, rfl, by decide +kernel⟩
  obtain ⟨filled, s', hmatch⟩ := hreturns hsellerCan hbuyerCan (by decide)
  exact ⟨⟨filled, s', hmatch, hfair filled s' hmatch⟩, by decide +kernel⟩

end Example

end FinChain.Ledger
