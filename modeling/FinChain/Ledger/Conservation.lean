import FinChain.Ledger.Events

/-!
# The market conserves assets

Two things hold in every reachable state of the chain. The operations of the market and the orders
that expire move assets between balances, orders, settlements, settlement funds and fees, and the
supply follows what is borrowed and paid back; so what is held of an asset beyond its supply stays
the same (`market_conserves`). And the supply of a bitasset is what its call orders owe, until it is
settled and has none (`debt_backs_supply`).
-/

namespace FinChain.Ledger

open Exec

/-- The events of the market. -/
def Event.Trades : Event → Prop
  | operation (.limitOrderCreate _) | operation (.limitOrderCancel _) | operation (.callOrderUpdate _)
  | operation (.assetSettle _) | operation (.assetGlobalSettle _) | clearExpiredOrders => True
  | _ => False

/-- An event of the market is a sequence of postings that add up to nothing. -/
theorem Event.Trades.postings {S : Settings} {e : Event} {s s' : Books} {u : Unit} (he : e.Trades)
    (hs : Sound s) (hfits : s.Fits) (h : e.run S s = .ok u s') : Postings .all s 0 s' := by
  have hkeeps : Licence.all.Keeps s := ⟨hs, fun hL => absurd trivial hL⟩
  cases e with
  | operation op =>
    have hlock : ∀ o, op ≠ .lock o := by
      rintro o rfl
      exact he
    obtain ⟨v, hv, hpostings⟩ :=
      Operation.postings hkeeps hfits (Event.licensed_all s (.operation op)) hlock h
    -- only the creation of an asset mints anything
    have hzero : v = 0 := by
      cases op with
      | assetCreate op => exact he.elim
      | limitOrderCreate | limitOrderCancel | callOrderUpdate | assetSettle | assetGlobalSettle
      | transfer | assetUpdate | assetUpdateBitasset | assetUpdateFeedProducers | assetIssue
      | assetReserve | assetFundFeePool | assetPublishFeed | assetClaimFees | lock => exact hv
    exact hpostings.cast hzero
  | clearExpiredOrders => exact postings_clearExpiredOrders hkeeps h
  | block | updateExpiredFeeds | maintenance => exact he.elim

/-- **The market conserves every asset.** -/
theorem market_conserves {S : Settings} {s s' : Books} {e : Event} (hs : Reachable S s)
    (he : e.Trades) (h : e.run S s = .ok () s') (X : ℕ) :
    s'.holdings X - s'.supply X = s.holdings X - s.supply X := by
  obtain ⟨hregular, hfits⟩ := hs.regular
  have hpostings := he.postings hregular.toSound hfits h
  calc s'.holdings X - s'.supply X = s'.worth X := (s'.worth_eq X).symm
    _ = (s.worth + 0) X := by rw [hpostings.worth hregular.toSound]
    _ = s.worth X := by rw [add_zero]
    _ = s.holdings X - s.supply X := s.worth_eq X

section Example

private def sellAsset : Event := .operation (.limitOrderCreate
  { fee := ⟨20, core⟩
    seller := 11
    amountToSell := ⟨50, 2⟩
    minToReceive := ⟨500, core⟩
    expiration := 1600000000
    fillOrKill := false })

private def buyAsset : Event := .operation (.limitOrderCreate
  { fee := ⟨20, core⟩
    seller := 10
    amountToSell := ⟨300, core⟩
    minToReceive := ⟨30, 2⟩
    expiration := 1600000000
    fillOrKill := false })

private theorem reachable_sellAsset : Reachable smallSettings (afterEvents [sellAsset]) :=
  ⟨smallChain, genesis_smallChain, (Steps.refl smallChain).afterEvents trivial (by decide +kernel)
    (fits_afterEvents (by decide +kernel) (by decide +kernel))⟩

/-- Two orders are matched, and the second one is filled. -/
theorem market_conserves_match :
    (afterEvents [buyAsset, sellAsset]).holdings core - (afterEvents [buyAsset, sellAsset]).supply core =
        (afterEvents [sellAsset]).holdings core - (afterEvents [sellAsset]).supply core ∧
      (afterEvents [buyAsset, sellAsset]).getBalance 10 2 = 30 ∧
      (afterEvents [buyAsset, sellAsset]).limitOrders.entries.length = 1 :=
  ⟨market_conserves reachable_sellAsset (e := buyAsset) trivial
    (ok_final_of_run' (by decide +kernel)) core, by decide +kernel, by decide +kernel⟩

end Example

/-- **The debts of its call orders are the supply of a bitasset**, and once it is settled it has no
call orders. -/
theorem debt_backs_supply {S : Settings} {s : Books} (hs : Reachable S s) :
    (∀ k b, s.bitassets.lookup k = some b → b.hasSettlement = false → s.debts k = s.supply k) ∧
      ∀ k b, s.bitassets.lookup k = some b → b.hasSettlement = true →
        ∀ id o, s.callOrders.lookup id = some o → o.debtType ≠ k := by
  have hsound := hs.regular.1.toSound
  refine ⟨?_, ?_⟩
  · intro k b hb hunsettled
    unfold Books.supply
    rw [(hsound.unsettled k b hb hunsettled).2, Option.getD_some]
  · rintro k b hb hsettled id o ho rfl
    -- the call order borrows a bitasset that is not settled
    obtain ⟨b', hb', hunsettled, -⟩ := (hsound.calls id o ho).2
    rw [hb] at hb'
    cases hb'
    rw [hsettled] at hunsettled
    cases hunsettled

section Example

private def coverDebt : Event := .operation (.callOrderUpdate
  { fee := ⟨20, core⟩
    fundingAccount := 10
    deltaCollateral := ⟨-100, core⟩
    deltaDebt := ⟨-400, 1⟩ })

private theorem reachable_coverDebt :
    Reachable smallSettings (afterEvents [coverDebt, publishPrice, setProducer]) := by
  refine ⟨smallChain, genesis_smallChain, (((Steps.refl smallChain).afterEvents trivial ?_ ?_).afterEvents
    trivial ?_ ?_).afterEvents trivial ?_ ?_⟩
  · decide +kernel
  · exact fits_afterEvents (by decide +kernel) (by decide +kernel)
  · decide +kernel
  · exact fits_afterEvents (by decide +kernel) (by decide +kernel)
  · decide +kernel
  · exact fits_afterEvents (by decide +kernel) (by decide +kernel)

/-- A borrower pays a part of the debt back, at a price that was published. -/
theorem debt_backs_supply_coverDebt :
    (afterEvents [coverDebt, publishPrice, setProducer]).debts 1 =
        (afterEvents [coverDebt, publishPrice, setProducer]).supply 1 ∧
      (afterEvents [coverDebt, publishPrice, setProducer]).supply 1 = 600 := by
  have hsupply : (afterEvents [coverDebt, publishPrice, setProducer]).supply 1 = 600 := by
    decide +kernel
  have hstate : ((afterEvents [coverDebt, publishPrice, setProducer]).bitassets.lookup 1).map
      BitassetData.hasSettlement = some false := by decide +kernel
  obtain ⟨b, hb, hunsettled⟩ := Option.map_eq_some_iff.mp hstate
  exact ⟨(debt_backs_supply reachable_coverDebt).1 1 b hb hunsettled, hsupply⟩

end Example

end FinChain.Ledger
