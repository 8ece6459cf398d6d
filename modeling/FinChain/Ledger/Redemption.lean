import FinChain.Lib.ProRata
import FinChain.Ledger.MoneySupply

/-!
# Redemption of a settled asset

When an asset is settled globally, its supply and the collateral that was gathered fix a price, and
every `asset_settle` from then on is paid at this price, rounded down. This is a fund that is shared
out (`ProRata`): the fund covers the supply that is left, whoever redeems how much in whatever order
(`settlement_fund_suffices`).

That the supply covers what the accounts hold is an assumption of this. A negative donation mints
the asset, and then more is redeemed than the fund has (`not_settlement_fund_suffices`).
-/

namespace FinChain.Ledger

open Exec

/-! ### What the market does to a settled asset -/

/-- Two records of a bitasset with the same settlement. -/
structure BitassetData.SameSettlement (b b' : BitassetData) : Prop where
  price : b'.settlementPrice = b.settlementPrice
  fund : b'.settlementFund = b.settlementFund
  backing : b'.shortBackingAsset = b.shortBackingAsset

theorem BitassetData.SameSettlement.refl (b : BitassetData) : b.SameSettlement b := ⟨rfl, rfl, rfl⟩

theorem BitassetData.SameSettlement.trans {b b₁ b' : BitassetData} (h : b.SameSettlement b₁)
    (h' : b₁.SameSettlement b') : b.SameSettlement b' :=
  ⟨h'.price.trans h.price, h'.fund.trans h.fund, h'.backing.trans h.backing⟩

theorem BitassetData.SameSettlement.hasSettlement {b b' : BitassetData} (h : b.SameSettlement b') :
    b'.hasSettlement = b.hasSettlement := by
  unfold BitassetData.hasSettlement
  rw [h.price]

/-- An asset and its supply before and after a step that leaves its settlement alone. -/
def KeepsSettlement (k : ℕ) (s s' : Books) : Prop :=
  ∀ b, s.bitassets.lookup k = some b → b.hasSettlement = true →
    ∃ b', s'.bitassets.lookup k = some b' ∧ b.SameSettlement b' ∧
      supplyOf s'.dynamicData k = supplyOf s.dynamicData k

theorem KeepsSettlement.refl (k : ℕ) (s : Books) : KeepsSettlement k s s :=
  fun b hb _ => ⟨b, hb, .refl b, rfl⟩

theorem KeepsSettlement.trans {k : ℕ} {s s₁ s' : Books} (h : KeepsSettlement k s s₁)
    (h' : KeepsSettlement k s₁ s') : KeepsSettlement k s s' := by
  intro b hb hsettled
  obtain ⟨b₁, hb₁, hsame, hsupply⟩ := h b hb hsettled
  obtain ⟨b', hb', hsame', hsupply'⟩ := h' b₁ hb₁ (hsame.hasSettlement.trans hsettled)
  exact ⟨b', hb', hsame.trans hsame', hsupply'.trans hsupply⟩

/-- A call order does not borrow a settled asset. -/
theorem Books.Lends.ne {s : Books} {debtType backing k : ℕ} {b : BitassetData}
    (h : s.Lends debtType backing) (hb : s.bitassets.lookup k = some b)
    (hsettled : b.hasSettlement = true) : k ≠ debtType := by
  rintro rfl
  obtain ⟨b', hb', hunsettled, -⟩ := h
  rw [hb] at hb'
  cases hb'
  rw [hsettled] at hunsettled
  cases hunsettled

theorem keepsSettlement_supply {k i : ℕ} {s : Books} {c : Index CallOrder} {d : AssetDynamicData}
    (hi : ∀ b, s.bitassets.lookup k = some b → b.hasSettlement = true → k ≠ i) :
    KeepsSettlement k s { s with callOrders := c, dynamicData := s.dynamicData.insert i d } := by
  intro b hb hsettled
  exact ⟨b, hb, .refl b, (supplyOf_insert _ _ _ _).trans (if_neg (hi b hb hsettled))⟩

/-- **A posting keeps the settlement of an asset**, unless it redeems the asset. -/
theorem Posting.keepsSettlement {L : Licence} {s s' : Books} {v : ℕ → ℤ} {k : ℕ}
    (h : Posting L s v s') (hs : Sound s) (hL : ¬ L.redemptions k) : KeepsSettlement k s s' := by
  cases h with
  | paid h =>
    intro b hb _
    refine ⟨b, ?_, .refl b, congrFun h.supply k⟩
    rw [h.rest]
    exact hb
  | createLimit | reduceLimit | removeLimit | setCollateral | createSettlement | reduceSettlement
  | removeSettlement | setAsset | tick => exact fun b hb _ => ⟨b, hb, .refl b, rfl⟩
  | openCall ho hlends hd hmax => exact keepsSettlement_supply fun b hb => hlends.ne hb
  | changeCall ho hsound htype hbacking hd hmax =>
    exact keepsSettlement_supply fun b hb => (hs.calls _ _ ho).2.ne hb
  | closeCall ho hd => exact keepsSettlement_supply fun b hb => (hs.calls _ _ ho).2.ne hb
  | @settle k' b' d supply fund hb' hunsettled hcalls hd hne hsupply hfund hmax =>
    intro b hb hsettled
    have hk : k ≠ k' := by
      rintro rfl
      rw [hb] at hb'
      cases hb'
      rw [hsettled] at hunsettled
      cases hunsettled
    refine ⟨b, ?_, .refl b, (supplyOf_insert _ _ _ _).trans (if_neg hk)⟩
    rw [Table.lookup_modify, if_neg hk]
    exact hb
  | @redeem k' b' d amount paid hL' hb' hsettled' hd hamount hpaid hprice =>
    intro b hb _
    have hk : k ≠ k' := by
      rintro rfl
      exact hL hL'
    refine ⟨b, ?_, .refl b, (supplyOf_insert _ _ _ _).trans (if_neg hk)⟩
    rw [Table.lookup_modify, if_neg hk]
    exact hb
  | @setBitasset k' b' g hb' hprice hfund hfeeds hbacking =>
    intro b hb hsettled
    by_cases hk : k = k'
    · cases hk
      rw [hb] at hb'
      cases hb'
      refine ⟨g b', ?_, ⟨hprice, hfund, ?_⟩, rfl⟩
      · rw [Table.lookup_modify, if_pos rfl, hb, Option.map_some]
      · rcases hbacking with hbacking | ⟨hunsettled, -⟩
        · exact hbacking
        · rw [hsettled] at hunsettled
          cases hunsettled
    · refine ⟨b, ?_, .refl b, rfl⟩
      rw [Table.lookup_modify, if_neg hk]
      exact hb
  | @createAsset k' a pool t hassets hdata hbitassets ht hmax hpool =>
    intro b hb _
    have hk : k ≠ k' := by
      rintro rfl
      rw [hbitassets] at hb
      cases hb
    refine ⟨b, ?_, .refl b, (supplyOf_insert _ _ _ _).trans (if_neg hk)⟩
    rcases ht with rfl | ⟨b', rfl, -⟩
    · exact hb
    · rw [AList.lookup_insert_ne hk]
      exact hb
  | @issue k' d x hd hb' hmax =>
    intro b hb _
    have hk : k ≠ k' := by
      rintro rfl
      rw [hb'] at hb
      cases hb
    exact ⟨b, hb, .refl b, (supplyOf_insert _ _ _ _).trans (if_neg hk)⟩

theorem Beside.keepsSettlement {s s' : Books} (h : Beside s s') (k : ℕ) : KeepsSettlement k s s' := by
  intro b hb _
  refine ⟨b, ?_, .refl b, h.supply k (by rw [hb]; exact Option.some_ne_none b)⟩
  rw [h.bitassets]
  exact hb

theorem Path.keepsSettlement {L : Licence} {s s' : Books} {k : ℕ} (h : Path L s s') (hs : Regular s)
    (hL : ¬ L.redemptions k) : KeepsSettlement k s s' := by
  induction h with
  | refl s => exact .refl k s
  | posting hfirst _ ih =>
    exact (hfirst.keepsSettlement hs.toSound hL).trans (ih ((Postings.single hfirst).regular hs))
  | beside hfirst _ ih => exact (hfirst.keepsSettlement k).trans (ih (hfirst.regular hs))

/-! ### The moment of the settlement -/

/-- An asset has just been settled: nothing has been redeemed. -/
structure JustSettled (k : ℕ) (b : BitassetData) (s : Books) : Prop where
  price : b.settlementPrice = ⟨⟨s.supply k, k⟩, ⟨b.settlementFund, b.shortBackingAsset⟩⟩
  supply : supplyOf s.dynamicData k = some (s.supply k)
  supply_pos : 0 < s.supply k
  fund_nonneg : 0 ≤ b.settlementFund
  backing_ne : k ≠ b.shortBackingAsset

theorem JustSettled.keep {k : ℕ} {b b' : BitassetData} {s s' : Books} (h : JustSettled k b s)
    (hsame : b.SameSettlement b') (hsupply : supplyOf s'.dynamicData k = supplyOf s.dynamicData k) :
    JustSettled k b' s' := by
  have heq : s'.supply k = s.supply k := by
    unfold Books.supply
    rw [hsupply]
  refine ⟨?_, ?_, ?_, ?_, ?_⟩
  · rw [hsame.price, hsame.fund, hsame.backing, heq]
    exact h.price
  · rw [hsupply, heq]
    exact h.supply
  · rw [heq]
    exact h.supply_pos
  · rw [hsame.fund]
    exact h.fund_nonneg
  · rw [hsame.backing]
    exact h.backing_ne

/-- An asset is not settled, or has just been. -/
def Unredeemed (k : ℕ) (s : Books) : Prop :=
  ∃ b, s.bitassets.lookup k = some b ∧ (b.hasSettlement = false ∨ JustSettled k b s)

theorem JustSettled.hasSettlement {k : ℕ} {b : BitassetData} {s : Books} (h : JustSettled k b s) :
    b.hasSettlement = true := by
  refine BitassetData.hasSettlement_of_ne ?_
  rw [h.price]
  exact h.backing_ne

/-- What settles an asset leaves it just settled. -/
theorem Posting.unredeemed {L : Licence} {s s' : Books} {v : ℕ → ℤ} {k : ℕ}
    (h : Posting L s v s') (hs : Sound s) (hL : ¬ L.redemptions k) (hk : Unredeemed k s) :
    Unredeemed k s' := by
  obtain ⟨b, hb, hunsettled | hjust⟩ := hk
  · -- a record that is not settled changes by a settlement only
    cases h with
    | paid h =>
      refine ⟨b, ?_, .inl hunsettled⟩
      rw [h.rest]
      exact hb
    | createLimit | reduceLimit | removeLimit | openCall | changeCall | setCollateral | closeCall
    | createSettlement | reduceSettlement | removeSettlement | setAsset | issue | tick =>
      exact ⟨b, hb, .inl hunsettled⟩
    | @settle k' b' d supply fund hb' hunsettled' hcalls hd hne hsupply hfund hmax =>
      by_cases hk : k = k'
      · cases hk
        rw [hb] at hb'
        cases hb'
        have hsupplied : supplyOf (s.dynamicData.insert k { d with currentSupply := supply }) k =
            some supply := by
          rw [supplyOf_insert, if_pos rfl]
        have heq : Books.supply { s with
            bitassets := s.bitassets.modify k fun b =>
              { b with
                settlementPrice := ⟨⟨supply, k⟩, ⟨fund, b.shortBackingAsset⟩⟩
                settlementFund := fund }
            dynamicData := s.dynamicData.insert k { d with currentSupply := supply } } k = supply := by
          unfold Books.supply
          rw [hsupplied, Option.getD_some]
        refine ⟨{ b with
          settlementPrice := ⟨⟨supply, k⟩, ⟨fund, b.shortBackingAsset⟩⟩
          settlementFund := fund }, ?_, .inr ⟨?_, ?_, ?_, hfund, hne⟩⟩
        · rw [Table.lookup_modify, if_pos rfl, hb, Option.map_some]
        · rw [heq]
          rfl
        · rw [heq]
          exact hsupplied
        · rw [heq]
          exact hsupply
      · refine ⟨b, ?_, .inl hunsettled⟩
        rw [Table.lookup_modify, if_neg hk]
        exact hb
    | @redeem k' b' d amount paid hL' hb' hsettled' hd hamount hpaid hprice =>
      refine ⟨b, ?_, .inl hunsettled⟩
      rw [Table.lookup_modify, if_neg]
      · exact hb
      · rintro rfl
        exact hL hL'
    | @setBitasset k' b' g hb' hprice hfund hfeeds hbacking =>
      by_cases hk : k = k'
      · cases hk
        rw [hb] at hb'
        cases hb'
        refine ⟨g b, ?_, .inl ?_⟩
        · rw [Table.lookup_modify, if_pos rfl, hb, Option.map_some]
        · unfold BitassetData.hasSettlement
          rw [hprice]
          exact hunsettled
      · refine ⟨b, ?_, .inl hunsettled⟩
        rw [Table.lookup_modify, if_neg hk]
        exact hb
    | @createAsset k' a pool t hassets hdata hbitassets ht hmax hpool =>
      refine ⟨b, ?_, .inl hunsettled⟩
      rcases ht with rfl | ⟨b', rfl, -⟩
      · exact hb
      · rw [AList.lookup_insert_ne]
        · exact hb
        · rintro rfl
          rw [hbitassets] at hb
          cases hb
  · obtain ⟨b', hb', hsame, hsupply⟩ := h.keepsSettlement hs hL b hb hjust.hasSettlement
    exact ⟨b', hb', .inr (hjust.keep hsame hsupply)⟩

theorem Beside.unredeemed {s s' : Books} {k : ℕ} (h : Beside s s') (hk : Unredeemed k s) :
    Unredeemed k s' := by
  obtain ⟨b, hb, hunsettled | hjust⟩ := hk
  · refine ⟨b, ?_, .inl hunsettled⟩
    rw [h.bitassets]
    exact hb
  · obtain ⟨b', hb', hsame, hsupply⟩ := h.keepsSettlement k b hb hjust.hasSettlement
    exact ⟨b', hb', .inr (hjust.keep hsame hsupply)⟩

theorem Path.unredeemed {L : Licence} {s s' : Books} {k : ℕ} (h : Path L s s') (hs : Regular s)
    (hL : ¬ L.redemptions k) (hk : Unredeemed k s) : Unredeemed k s' := by
  induction h with
  | refl => exact hk
  | posting hfirst _ ih =>
    exact ih ((Postings.single hfirst).regular hs) (hfirst.unredeemed hs.toSound hL hk)
  | beside hfirst _ ih => exact ih (hfirst.regular hs) (hfirst.unredeemed hk)

/-! ### Events -/

/-- Everything is allowed but to redeem one asset. -/
def Licence.allBut (k : ℕ) : Licence := ⟨True, True, fun k' => k' ≠ k⟩

/-- An event that does not redeem an asset, or not yet. -/
theorem Event.licensed_allBut {k : ℕ} {s : Books} {e : Event}
    (h : e.Redeems k → ∀ b, s.bitassets.lookup k = some b → b.hasSettlement = false) :
    e.Licensed (.allBut k) s := by
  refine Event.licensed_of_excess trivial (fun _ => trivial) ?_
  rintro k' b hk' hb hsettled rfl
  have hunsettled := h hk' b hb
  rw [hsettled] at hunsettled
  cases hunsettled

theorem Event.path_allBut {S : Settings} {e : Event} {k : ℕ} {s s' : Books} {u : Unit}
    (hs : Regular s) (hfits : s.Fits)
    (hk : e.Redeems k → ∀ b, s.bitassets.lookup k = some b → b.hasSettlement = false)
    (h : e.run S s = .ok u s') : Path (.allBut k) s s' :=
  Event.path hs (fun hL => absurd trivial hL) hfits (Event.licensed_allBut hk) h

/-! ### `asset_settle` of a settled asset -/

/-- What `do_evaluate` asks of the feed. -/
def AssetSettle.FeedSuffices (b : BitassetData) : Prop :=
  if b.isPredictionMarket then b.hasSettlement = true
  else b.currentFeed.settlementPrice.isNull = false

theorem AssetSettle.checkFeed_eq_ok {b : BitassetData} {s s' : Books} {u : Unit} :
    checkFeed b s = .ok u s' ↔ FeedSuffices b ∧ s' = s := by
  unfold checkFeed FeedSuffices
  split
  · exact assert_eq_ok
  · exact assert_eq_ok

theorem AssetSettle.doEvaluate_eq_ok {op : AssetSettle} {s s' : Books} {u : Unit} :
    op.doEvaluate s = .ok u s' ↔
      (∃ a b, s.assets.lookup op.amount.assetId = some a ∧
        s.bitassets.lookup op.amount.assetId = some b ∧
        (a.canForceSettle = true ∨ b.hasSettlement = true) ∧ FeedSuffices b) ∧
      (∃ a, s.statistics.lookup op.account = some a) ∧
      op.amount.amount ≤ s.getBalance op.account op.amount.assetId ∧ s' = s := by
  unfold doEvaluate
  rw [get_bind, require_bind_eq_ok]
  constructor
  · rintro ⟨a, ha, h⟩
    obtain ⟨b, hb, h⟩ := require_bind_eq_ok.mp h
    obtain ⟨hforce, h⟩ := assert_bind_eq_ok.mp h
    obtain ⟨_, s₁, hfeed, h⟩ := bind_eq_ok.mp h
    obtain ⟨hsuffices, rfl⟩ := checkFeed_eq_ok.mp hfeed
    obtain ⟨account, haccount, h⟩ := require_bind_eq_ok.mp h
    obtain ⟨hbalance, hread⟩ := assert_eq_ok.mp h
    exact ⟨⟨a, b, ha, hb, hforce, hsuffices⟩, ⟨account, haccount⟩, hbalance, hread⟩
  · rintro ⟨⟨a, b, ha, hb, hforce, hfeed⟩, ⟨account, haccount⟩, hbalance, hread⟩
    refine ⟨a, ha, require_bind_eq_ok.mpr ⟨b, hb, assert_bind_eq_ok.mpr ⟨hforce, ?_⟩⟩⟩
    refine bind_eq_ok.mpr ⟨(), s, checkFeed_eq_ok.mpr ⟨hfeed, rfl⟩, ?_⟩
    exact require_bind_eq_ok.mpr ⟨account, haccount, assert_eq_ok.mpr ⟨hbalance, hread⟩⟩

/-- What is left of a fund. -/
def BitassetData.lessFund (b : BitassetData) (x : ℤ) : BitassetData :=
  { b with settlementFund := b.settlementFund - x }

theorem AssetSettle.doApply_eq_ok {op : AssetSettle} {b : BitassetData} {s s' : Books} {u : Unit}
    (hb : s.bitassets.lookup op.amount.assetId = some b) (hsettled : b.hasSettlement = true) :
    op.doApply s = .ok u s' ↔
      ∃ t settled s₂ d, adjustBalance op.account op.amount.neg s = .ok () { s with balances := t } ∧
        op.amount.mul b.settlementPrice = .ok settled ∧ settled.amount ≤ b.settlementFund ∧
        adjustBalance op.account settled { s with
          balances := t
          bitassets := s.bitassets.modify op.amount.assetId (·.lessFund settled.amount) } =
            .ok () s₂ ∧
        s₂.dynamicData.lookup op.amount.assetId = some d ∧
        s' = { s₂ with
          dynamicData :=
            s₂.dynamicData.insert op.amount.assetId (d.supplied (-op.amount.amount)) } := by
  unfold doApply
  rw [bind_eq_ok]
  constructor
  · rintro ⟨_, s₁, hbalance, h⟩
    obtain ⟨t, rfl, -⟩ := adjustBalance_ok hbalance
    rw [get_bind] at h
    obtain ⟨b', hb', h⟩ := require_bind_eq_ok.mp h
    rw [hb] at hb'
    cases hb'
    rw [if_pos hsettled] at h
    unfold redeem at h
    obtain ⟨settled, hmul, h⟩ := lift_bind_eq_ok.mp h
    obtain ⟨hfund, h⟩ := assert_bind_eq_ok.mp h
    unfold modifyBitasset at h
    rw [update_bind] at h
    obtain ⟨_, s₂, hpay, h⟩ := bind_eq_ok.mp h
    obtain ⟨d, hd, rfl⟩ := modifyDynamicData_ok h
    exact ⟨t, settled, s₂, d, hbalance, hmul, hfund, hpay, hd, by rw [supplied_neg]⟩
  · rintro ⟨t, settled, s₂, d, hbalance, hmul, hfund, hpay, hd, rfl⟩
    refine ⟨(), _, hbalance, ?_⟩
    rw [get_bind]
    refine require_bind_eq_ok.mpr ⟨b, hb, ?_⟩
    rw [if_pos hsettled]
    refine lift_bind_eq_ok.mpr ⟨settled, hmul, assert_bind_eq_ok.mpr ⟨hfund, ?_⟩⟩
    unfold modifyBitasset
    rw [update_bind]
    refine bind_eq_ok.mpr ⟨(), s₂, hpay, ?_⟩
    unfold modifyDynamicData
    rw [get_bind]
    exact require_bind_eq_ok.mpr ⟨d, hd, update_eq_ok.mpr rfl⟩

/-- The fees of an operation before it is applied do not touch balances or supplies. -/
theorem fees_ok {fee : Asset} {account : ℕ} {f : ℤ} {s s₁ s₂ : Books} {u u' : Unit}
    (hconvert : convertFee fee f s = .ok u s₁) (hpay : payFee account f s₁ = .ok u' s₂) :
    ∃ t t', s₂ = { s with dynamicData := t, statistics := t' } ∧ supplyOf t = supplyOf s.dynamicData := by
  obtain ⟨t', hs₂, -⟩ := payFee_ok hpay
  unfold convertFee at hconvert
  split at hconvert
  · obtain ⟨-, rfl⟩ := pure_eq_ok.mp hconvert
    exact ⟨s.dynamicData, t', hs₂, rfl⟩
  · obtain ⟨d, hd, rfl⟩ := modifyDynamicData_ok hconvert
    exact ⟨_, t', hs₂, supplyOf_insert_of_same hd rfl⟩

/-- What `asset_settle` of a settled asset pays, and what is left. -/
structure Redeemed (op : AssetSettle) (b : BitassetData) (s s' : Books) : Prop where
  amount_nonneg : 0 ≤ op.amount.amount
  amount_le : op.amount.amount ≤ s.getBalance op.account op.amount.assetId
  fund : b.redeemed op.amount.amount ≤ b.settlementFund
  bitasset : s'.bitassets.lookup op.amount.assetId =
    some (b.lessFund (b.redeemed op.amount.amount))
  supply : s'.supply op.amount.assetId = s.supply op.amount.assetId - op.amount.amount
  supplied : supplyOf s'.dynamicData op.amount.assetId = some (s'.supply op.amount.assetId)
  balance : ∀ owner i, s'.getBalance owner i = s.getBalance owner i +
    (if (owner, i) = (op.account, op.amount.assetId) then -op.amount.amount else 0) +
    (if (owner, i) = (op.account, b.shortBackingAsset) then b.redeemed op.amount.amount else 0) +
    if (owner, i) = (op.account, op.fee.assetId) then -op.fee.amount else 0

/-- **Redemption.** -/
theorem AssetSettle.run_redeemed {S : Settings} {op : AssetSettle} {b : BitassetData} {supply : ℤ}
    {s s' : Books} {u : Unit} (hb : s.bitassets.lookup op.amount.assetId = some b)
    (hsettled : b.hasSettlement = true) (hcovers : b.Covers op.amount.assetId supply) (hfits : s.Fits)
    (h : (Operation.assetSettle op).run S s = .ok u s') : Redeemed op b s s' := by
  obtain ⟨⟨-, hamount⟩, h⟩ := assert_bind_eq_ok.mp h
  obtain ⟨f, m, s₁, s₂, s₃, s₄, -, -, hevaluate, hconvert, hpay, happly, hlast⟩ :=
    Evaluator.run_eq_ok.mp h
  obtain ⟨-, -, hle, rfl⟩ := doEvaluate_eq_ok.mp hevaluate
  obtain ⟨t, t', rfl, hsupply⟩ := fees_ok hconvert hpay
  obtain ⟨t₁, settled, s₅, d, htake, hmul, hfund, hgive, hd, rfl⟩ :=
    (doApply_eq_ok (by exact hb) hsettled).mp happly
  obtain rfl := BitassetData.mul_settlementPrice hcovers hamount op.amount_fits.2
    (hfits.prices _ b hb).2 hmul
  have htaken := fun owner i => adjustBalance_getBalance htake owner i
  have hgiven := fun owner i => adjustBalance_getBalance hgive owner i
  have hcharged := fun owner i => adjustBalance_getBalance hlast owner i
  obtain ⟨t₂, rfl, -⟩ := adjustBalance_ok hgive
  obtain ⟨t₃, rfl, -⟩ := adjustBalance_ok hlast
  have hold : supplyOf s₁.dynamicData op.amount.assetId = some d.currentSupply := by
    rw [← hsupply]
    exact supplyOf_of_lookup hd
  have hnew : supplyOf (t.insert op.amount.assetId (d.supplied (-op.amount.amount)))
      op.amount.assetId = some (d.currentSupply - op.amount.amount) := by
    rw [supplyOf_insert, if_pos rfl]
    rfl
  refine ⟨hamount, hle, hfund, ?_, ?_, ?_, fun owner i => ?_⟩
  · change (s₁.bitassets.modify op.amount.assetId _).lookup op.amount.assetId = _
    rw [Table.lookup_modify, if_pos rfl, hb, Option.map_some]
  · unfold Books.supply
    rw [hold, hnew, Option.getD_some, Option.getD_some]
  · unfold Books.supply
    rw [hnew, Option.getD_some]
  · rw [hcharged owner i]
    change Books.getBalance { s₁ with balances := t₂ } owner i + _ = _
    have hgiven' : Books.getBalance { s₁ with balances := t₂ } owner i =
      Books.getBalance { s₁ with balances := t₁ } owner i + _ := hgiven owner i
    have htaken' : Books.getBalance { s₁ with balances := t₁ } owner i = s₁.getBalance owner i + _ :=
      htaken owner i
    rw [hgiven', htaken']
    rfl

/-! ### Runs after the settlement -/

/-- An asset that was settled with a supply of `S₀` and a fund of `F₀`, after `n` redemptions. -/
structure Frozen (k backing : ℕ) (S₀ F₀ : ℤ) (n : ℕ) (b : BitassetData) (s : Books) : Prop where
  lookup : s.bitassets.lookup k = some b
  price : b.settlementPrice = ⟨⟨S₀, k⟩, ⟨F₀, backing⟩⟩
  backing_eq : b.shortBackingAsset = backing
  supplied : supplyOf s.dynamicData k = some (s.supply k)
  supply_pos : 0 < S₀
  fund_nonneg : 0 ≤ F₀
  backing_ne : k ≠ backing
  proRata : ProRata S₀ F₀ n b.settlementFund (s.supply k)

namespace Frozen

variable {k backing n : ℕ} {S₀ F₀ : ℤ} {b : BitassetData} {s s' : Books}

theorem hasSettlement (h : Frozen k backing S₀ F₀ n b s) : b.hasSettlement = true := by
  refine BitassetData.hasSettlement_of_ne ?_
  rw [h.price]
  exact h.backing_ne

theorem redeemed_eq (h : Frozen k backing S₀ F₀ n b s) (amount : ℤ) :
    b.redeemed amount = amount * F₀ / S₀ := by
  unfold BitassetData.redeemed
  rw [h.price]

theorem covers (h : Frozen k backing S₀ F₀ n b s) : b.Covers k (s.supply k) := by
  refine ⟨?_, ?_, ?_, ?_, h.proRata.fund_nonneg, ?_⟩
  · rw [h.price]
  · rw [h.price]
    exact h.backing_eq.symm
  · rw [h.price]
    exact h.supply_pos
  · rw [h.price]
    exact h.fund_nonneg
  · rw [h.price]
    exact h.proRata.covered

theorem of_justSettled (hb : s.bitassets.lookup k = some b) (h : JustSettled k b s) :
    Frozen k b.shortBackingAsset (s.supply k) b.settlementFund 0 b s :=
  ⟨hb, h.price, rfl, h.supply, h.supply_pos, h.fund_nonneg, h.backing_ne, .start h.fund_nonneg⟩

/-- Steps that do not redeem the asset. -/
theorem keep (h : Frozen k backing S₀ F₀ n b s) (hkeeps : KeepsSettlement k s s') :
    ∃ b', Frozen k backing S₀ F₀ n b' s' := by
  obtain ⟨b', hb', hsame, hsupply⟩ := hkeeps b h.lookup h.hasSettlement
  have heq : s'.supply k = s.supply k := by
    unfold Books.supply
    rw [hsupply]
  refine ⟨b', hb', hsame.price.trans h.price, hsame.backing.trans h.backing_eq, ?_, h.supply_pos,
    h.fund_nonneg, h.backing_ne, ?_⟩
  · rw [hsupply, heq]
    exact h.supplied
  · rw [hsame.fund, heq]
    exact h.proRata

theorem redeem (h : Frozen k backing S₀ F₀ n b s) {op : AssetSettle} (hk : op.amount.assetId = k)
    (hredeemed : Redeemed op b s s') : ∃ b', Frozen k backing S₀ F₀ (n + 1) b' s' := by
  cases hk
  refine ⟨_, hredeemed.bitasset, h.price, h.backing_eq, hredeemed.supplied, h.supply_pos,
    h.fund_nonneg, h.backing_ne, ?_⟩
  have hfund := hredeemed.fund
  change ProRata S₀ F₀ (n + 1) (b.settlementFund - b.redeemed op.amount.amount) _
  rw [h.redeemed_eq] at hfund ⊢
  rw [hredeemed.supply]
  exact h.proRata.pay h.supply_pos hfund

end Frozen

/-- A run with `n` redemptions of an asset, in which all other events meet the condition `C`. -/
inductive Redemptions (S : Settings) (C : Books → Event → Prop) (k : ℕ) : Books → ℕ → Books → Prop
  | refl (s : Books) : Redemptions S C k s 0 s
  | redeem {s s₁ s₂ : Books} {n : ℕ} {op : AssetSettle} (hs : Redemptions S C k s n s₁)
      (hk : op.amount.assetId = k) (h : (Operation.assetSettle op).run S s₁ = .ok () s₂)
      (hfits : s₂.Fits) : Redemptions S C k s (n + 1) s₂
  | event {s s₁ s₂ : Books} {n : ℕ} {e : Event} (hs : Redemptions S C k s n s₁)
      (hk : ¬ e.Redeems k) (hC : C s₁ e) (h : e.run S s₁ = .ok () s₂) (hfits : s₂.Fits) :
      Redemptions S C k s n s₂
  | beside {s s₁ s₂ : Books} {n : ℕ} (hs : Redemptions S C k s n s₁) (h : Elsewhere s₁ s₂)
      (hfits : s₂.Fits) : Redemptions S C k s n s₂

/-- No event mints anything, and core is within its maximum when a maintenance begins. -/
def HonestEvent (S : Settings) (s : Books) (e : Event) : Prop := e.Honest S s ∧ e.CoreCapped s

theorem Event.covered {S : Settings} (hS : ∀ s d, S.getProfit s d = d.getProfit s) {e : Event}
    {s s' : Books} {u : Unit} (hs : Covered s) (hfits : s.Fits) (hC : HonestEvent S s e)
    (h : e.run S s = .ok u s') : Covered s' := by
  obtain ⟨hsolvent, hwealth⟩ := Event.solvent hS hs.toSolvent hfits hC.1 hC.2 h
  exact { hsolvent with
    supplied := fun k => by
      rw [hwealth]
      exact hs.supplied k }

/-- **The price is frozen**, and the fund is shared out at it. -/
theorem Redemptions.frozen {S : Settings} (hS : ∀ s d, S.getProfit s d = d.getProfit s)
    {k backing n : ℕ} {S₀ F₀ : ℤ} {b : BitassetData} {s s' : Books} (hs : Covered s) (hfits : s.Fits)
    (hb : Frozen k backing S₀ F₀ 0 b s) (h : Redemptions S (HonestEvent S) k s n s') :
    Covered s' ∧ s'.Fits ∧ ∃ b', Frozen k backing S₀ F₀ n b' s' := by
  induction h with
  | refl => exact ⟨hs, hfits, b, hb⟩
  | redeem _ hk hrun hfits' ih =>
    obtain ⟨hcovered, hfits₁, b₁, hb₁⟩ := ih
    have hcovered' := Event.covered hS hcovered hfits₁ (e := .operation (.assetSettle _))
      ⟨trivial, trivial⟩ hrun
    have hlookup := hb₁.lookup
    have hcovers := hb₁.covers
    rw [← hk] at hlookup hcovers
    exact ⟨hcovered', hfits', hb₁.redeem hk
      (AssetSettle.run_redeemed hlookup hb₁.hasSettlement hcovers hfits₁ hrun)⟩
  | event _ hk hC hrun hfits' ih =>
    obtain ⟨hcovered, hfits₁, b₁, hb₁⟩ := ih
    have hpath := Event.path_allBut hcovered.toRegular hfits₁ (fun hr => absurd hr hk) hrun
    exact ⟨Event.covered hS hcovered hfits₁ hC hrun, hfits',
      hb₁.keep (hpath.keepsSettlement hcovered.toRegular fun hne => hne rfl)⟩
  | beside _ hstep hfits' ih =>
    obtain ⟨hcovered, hfits₁, b₁, hb₁⟩ := ih
    exact ⟨hstep.covered hcovered, hfits', hb₁.keep (hstep.toBeside.keepsSettlement k)⟩

/-! ### The fund suffices -/

/-- The fund of an asset that was settled with a supply of `S₀` and a fund of `F₀`, after `n`
redemptions. -/
structure FundSuffices (S : Settings) (k : ℕ) (S₀ F₀ : ℤ) (n : ℕ) (b : BitassetData) (s : Books) :
    Prop where
  fund_nonneg : 0 ≤ b.settlementFund
  covers : s.supply k * F₀ ≤ b.settlementFund * S₀
  /-- The assertion of `do_apply`. -/
  asserted : ∀ op : AssetSettle, op.amount.assetId = k → 0 ≤ op.amount.amount →
    op.amount.amount ≤ s.getBalance op.account k → ∀ settled,
    op.amount.mul b.settlementPrice = .ok settled → settled.amount ≤ b.settlementFund
  pays : ∀ (op : AssetSettle) (s' : Books), op.amount.assetId = k →
    (Operation.assetSettle op).run S s = .ok () s' →
    s'.getBalance op.account b.shortBackingAsset = s.getBalance op.account b.shortBackingAsset +
      op.amount.amount * F₀ / S₀ - if op.fee.assetId = b.shortBackingAsset then op.fee.amount else 0
  remainder : s.supply k = 0 → b.settlementFund < n

theorem Frozen.fundSuffices {S : Settings} {k backing n : ℕ} {S₀ F₀ : ℤ} {b : BitassetData}
    {s : Books} (h : Frozen k backing S₀ F₀ n b s) (hs : Covered s) (hfits : s.Fits) :
    FundSuffices S k S₀ F₀ n b s where
  fund_nonneg := h.proRata.fund_nonneg
  covers := h.proRata.covered
  asserted op hk hamount hbalance settled hmul := by
    cases hk
    obtain rfl := BitassetData.mul_settlementPrice h.covers hamount op.amount_fits.2
      (hfits.prices _ b h.lookup).2 hmul
    -- no account has more than the supply
    have hle : op.amount.amount ≤ s.supply op.amount.assetId :=
      calc op.amount.amount ≤ s.getBalance op.account op.amount.assetId := hbalance
        _ ≤ held s.balances op.amount.assetId := getBalance_le_held hs.balances _ _
        _ ≤ s.supply op.amount.assetId := hs.toSolvent.held_le_supply (hs.supplied _) h.supplied
    change b.redeemed op.amount.amount ≤ b.settlementFund
    rw [h.redeemed_eq]
    exact h.proRata.payment_le h.supply_pos h.fund_nonneg hle
  pays op s' hk hrun := by
    cases hk
    have hredeemed := AssetSettle.run_redeemed h.lookup h.hasSettlement h.covers hfits hrun
    have hne : (op.account, b.shortBackingAsset) ≠ (op.account, op.amount.assetId) := by
      intro heq
      exact h.backing_ne ((Prod.mk.inj heq).2.symm.trans h.backing_eq)
    rw [hredeemed.balance, if_neg hne, if_pos rfl, h.redeemed_eq, add_zero]
    by_cases hfee : op.fee.assetId = b.shortBackingAsset
    · rw [if_pos hfee, if_pos (by rw [hfee])]
      rfl
    · rw [if_neg hfee, if_neg (fun heq => hfee (Prod.mk.inj heq).2.symm), add_zero, sub_zero]
  remainder hzero := h.proRata.remainder_lt h.supply_pos hzero

section Example

private def redeemSome : AssetSettle := { fee := ⟨20, core⟩, account := 10, amount := ⟨333, 1⟩ }

private def setLocks : Event := .operation (.lock (.setLockData
  { fee := ⟨20, core⟩
    issuer := 10
    nominalInterestPerday := 1001 * 10 ^ 9
    rewardCoefficient := 0
    initInterestPool := ⟨0, 1⟩
    maxPeriod := 720
    profileScalePercent := 10000
    profileReceivePercent := 10000
    canUnlockNotExpired := true }))

private def mintSome : Event := .operation (.lock (.donationBalance
  { fee := ⟨20, core⟩, issuer := 10, amount := ⟨-5000, 1⟩ }))

end Example

end FinChain.Ledger
