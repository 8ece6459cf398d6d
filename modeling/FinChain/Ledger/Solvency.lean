import FinChain.Ledger.LockSafety
import FinChain.Ledger.Maintenance
import FinChain.Ledger.Soundness

/-!
# Solvency

All that is held of an asset: in the market, in locked balances and interest pools, in vesting
balances, in FBA accumulators and in the witness budget. When none of it is negative and its sum is
not more than the supply, then no account has more of an asset than its supply, and no supply is
negative.
-/

namespace FinChain.Ledger

open Exec

/-! ### Supplies -/

/-- The supplies of all assets. -/
def supplies (t : Table ℕ AssetDynamicData) : ℕ → ℤ :=
  t.total fun k d => Asset.vec ⟨d.currentSupply, k⟩

/-- The fees that were accumulated, and the fee pools. -/
def collected (t : Table ℕ AssetDynamicData) : ℕ → ℤ :=
  t.total fun k d => Asset.vec ⟨d.accumulatedFees, k⟩ + Asset.vec ⟨d.feePool, core⟩

theorem fundsLessSupply_eq (t : Table ℕ AssetDynamicData) :
    fundsLessSupply t = collected t - supplies t := by
  unfold fundsLessSupply collected supplies
  exact Table.total_sub _ _ t

theorem supplies_apply {t : Table ℕ AssetDynamicData} {k : ℕ} {supply : ℤ}
    (h : supplyOf t k = some supply) : supplies t k = supply := by
  obtain ⟨d, hd, rfl⟩ := Option.map_eq_some_iff.mp h
  have hrest : Table.total (fun k d => Asset.vec ⟨d.currentSupply, k⟩) (t.erase k) k = 0 := by
    refine Table.total_apply_eq_zero ?_
    intro k' d' hd'
    rw [Asset.vec_apply, if_neg]
    rintro rfl
    rw [AList.lookup_erase] at hd'
    cases hd'
  unfold supplies
  rw [Table.total_erase _ t k, hd, Option.elim_some, Pi.add_apply, hrest, add_zero, Asset.vec_apply,
    if_pos rfl]

theorem supplies_eq (t : Table ℕ AssetDynamicData) (k : ℕ) :
    supplies t k = (supplyOf t k).getD 0 := by
  cases h : supplyOf t k with
  | some supply => exact supplies_apply h
  | none =>
    refine Table.total_apply_eq_zero ?_
    intro k' d hd
    rw [Asset.vec_apply, if_neg]
    rintro rfl
    rw [supplyOf_of_lookup hd] at h
    cases h

/-! ### What is held -/

/-- What is held of the assets in balances, orders, settlements, settlement funds and fees. -/
def Books.holdings (s : Books) : ℕ → ℤ :=
  held s.balances + s.limitOrders.total (fun _ o => o.amountForSale.vec) +
    s.limitOrders.total (fun _ o => Asset.vec ⟨o.deferredFee, core⟩) +
    s.callOrders.total (fun _ o => o.getCollateral.vec) +
    s.settlements.total (fun _ o => o.balance.vec) + s.bitassets.total (fun _ b => b.holds) +
    collected s.dynamicData + pendingFees s.statistics

/-- The supply of an asset. -/
def Books.supply (s : Books) (assetId : ℕ) : ℤ := (supplyOf s.dynamicData assetId).getD 0

/-- What is held beyond the supply is what is held, less the supply. -/
theorem Books.worth_eq (s : Books) (k : ℕ) : s.worth k = s.holdings k - s.supply k := by
  have hlimits : s.limitOrders.total (fun _ o => o.holds) =
      s.limitOrders.total (fun _ o => o.amountForSale.vec) +
        s.limitOrders.total (fun _ o => Asset.vec ⟨o.deferredFee, core⟩) := Index.total_add _ _ _
  unfold Books.worth Books.holdings Books.supply
  rw [fundsLessSupply_eq, hlimits, ← supplies_eq]
  simp only [Pi.add_apply, Pi.sub_apply]
  abel

/-- What is held of the assets outside the market. -/
def Books.reserves (s : Books) : ℕ → ℤ :=
  lockedUp s.lockedBalances + pooled s.lockData +
    s.vestingBalances.total (fun _ b => b.balance.vec) +
    s.fbas.total (fun _ f => Asset.vec ⟨f.accumulatedFbaFees, core⟩) +
    Asset.vec ⟨s.witnessBudget, core⟩

/-- All that is held beyond the supply. -/
def Books.wealth (s : Books) : ℕ → ℤ := s.worth + s.reserves

/-- Core exists and is not market-issued. -/
structure CoreIssued (s : Books) : Prop where
  asset : s.assets.lookup core ≠ none
  bitasset : s.bitassets.lookup core = none

/-- What holds in every state, whatever is minted by mistake. -/
structure Regular (s : Books) : Prop extends Sound s, CoreIssued s where
  fbas : ∀ id f, s.fbas.lookup id = some f → 0 ≤ f.accumulatedFbaFees

/-- Nothing that is held is negative. -/
structure Solvent (s : Books) : Prop extends Regular s, LockSafe s where
  locks : ∀ id l, s.lockedBalances.lookup id = some l → 0 ≤ l.initialLockBalance
  vesting : ∀ id b, s.vestingBalances.lookup id = some b → 0 ≤ b.balance.amount
  witnessBudget : 0 ≤ s.witnessBudget

theorem held_nonneg {t : Table (ℕ × ℕ) AccountBalance} (h : BalancesNonneg t) : 0 ≤ held t :=
  Table.total_nonneg fun key b hb => Asset.vec_nonneg (h key b hb)

/-- No account has more than all accounts together. -/
theorem getBalance_le_held {s : Books} (h : BalancesNonneg s.balances) (account k : ℕ) :
    s.getBalance account k ≤ held s.balances k := by
  unfold Books.getBalance held
  rw [Table.total_erase _ s.balances (account, k), Pi.add_apply]
  have hrest : 0 ≤ Table.total (fun key b => Asset.vec ⟨b.balance, key.2⟩)
      (s.balances.erase (account, k)) := by
    refine Table.total_nonneg fun key b hb => Asset.vec_nonneg (h key b ?_)
    by_cases hkey : key = (account, k)
    · rw [hkey, AList.lookup_erase] at hb
      cases hb
    · rwa [AList.lookup_erase_ne hkey] at hb
  cases hb : s.balances.lookup (account, k) with
  | none => exact add_nonneg le_rfl (hrest k)
  | some b =>
    rw [Option.elim_some, Asset.vec_apply, if_pos rfl]
    exact le_add_of_nonneg_right (hrest k)

namespace Solvent

variable {s : Books}

theorem reserves_nonneg (hs : Solvent s) : 0 ≤ s.reserves := by
  have hlocked : 0 ≤ lockedUp s.lockedBalances := by
    refine Index.total_nonneg fun id l hl => ?_
    split
    · exact le_rfl
    · exact Asset.vec_nonneg ((hs.locks id l hl).trans (hs.profits id l hl))
  have hpooled : 0 ≤ pooled s.lockData :=
    Table.total_nonneg fun k d hd => Asset.vec_nonneg (hs.pools k d hd)
  have hvesting : 0 ≤ s.vestingBalances.total fun _ b => b.balance.vec :=
    Index.total_nonneg fun id b hb => Asset.vec_nonneg (hs.vesting id b hb)
  have hfbas : 0 ≤ s.fbas.total fun _ f => Asset.vec ⟨f.accumulatedFbaFees, core⟩ :=
    Table.total_nonneg fun id f hf => Asset.vec_nonneg (hs.fbas id f hf)
  exact add_nonneg (add_nonneg (add_nonneg (add_nonneg hlocked hpooled) hvesting) hfbas)
    (Asset.vec_nonneg hs.witnessBudget)

theorem collected_nonneg (hs : Solvent s) : 0 ≤ collected s.dynamicData :=
  Table.total_nonneg fun k d hd =>
    add_nonneg (Asset.vec_nonneg (hs.funds k d hd).1) (Asset.vec_nonneg (hs.funds k d hd).2)

theorem pending_nonneg (hs : Solvent s) : 0 ≤ pendingFees s.statistics :=
  Table.total_nonneg fun account a ha =>
    add_nonneg (Asset.vec_nonneg (hs.pending account a ha).1)
      (Asset.vec_nonneg (hs.pending account a ha).2)

/-- What is in orders, settlements and settlement funds. -/
theorem orders_nonneg (hs : Solvent s) :
    0 ≤ s.limitOrders.total (fun _ o => o.holds) + s.callOrders.total (fun _ o => o.getCollateral.vec) +
      s.settlements.total (fun _ o => o.balance.vec) + s.bitassets.total fun _ b => b.holds := by
  refine add_nonneg (add_nonneg (add_nonneg ?_ ?_) ?_) ?_
  · exact Index.total_nonneg fun id o ho =>
      add_nonneg (Asset.vec_nonneg (hs.limits id o ho).forSale_pos.le)
        (Asset.vec_nonneg (Int.natCast_nonneg _))
  · exact Index.total_nonneg fun id o ho => Asset.vec_nonneg (hs.calls id o ho).1.collateral_nonneg
  · exact Index.total_nonneg fun id o ho => Asset.vec_nonneg (hs.settlements id o ho)
  · refine Table.total_nonneg fun k b hb => Asset.vec_nonneg ?_
    change 0 ≤ b.settlementFund
    cases hsettled : b.hasSettlement with
    | false => exact (hs.unsettled k b hb hsettled).1.ge
    | true =>
      obtain ⟨supply, -, hcovers⟩ := hs.settled k b hb hsettled
      exact hcovers.fund_nonneg

/-- **The accounts have no more than the supply**, unless more is held than the supply. -/
theorem held_le_supply (hs : Solvent s) {k : ℕ} {supply : ℤ} (hwealth : s.wealth k ≤ 0)
    (hsupply : supplyOf s.dynamicData k = some supply) : held s.balances k ≤ supply := by
  have hreserves := hs.reserves_nonneg k
  have hcollected := hs.collected_nonneg k
  have hpending := hs.pending_nonneg k
  have horders := hs.orders_nonneg k
  unfold Books.wealth Books.worth at hwealth
  rw [fundsLessSupply_eq] at hwealth
  simp only [Pi.add_apply, Pi.sub_apply, Pi.zero_apply] at hwealth hreserves hcollected hpending horders
  rw [supplies_apply hsupply] at hwealth
  omega

theorem supply_nonneg (hs : Solvent s) {k : ℕ} {supply : ℤ} (hwealth : s.wealth k ≤ 0)
    (hsupply : supplyOf s.dynamicData k = some supply) : 0 ≤ supply :=
  le_trans (held_nonneg hs.balances k) (hs.held_le_supply hwealth hsupply)

end Solvent

/-! ### Postings -/

/-- What postings leave alone. -/
structure SameReserves (s s' : Books) : Prop where
  lockData : s'.lockData = s.lockData
  lockedBalances : s'.lockedBalances = s.lockedBalances
  vestingBalances : s'.vestingBalances = s.vestingBalances
  fbas : s'.fbas = s.fbas
  witnessBudget : s'.witnessBudget = s.witnessBudget

theorem Posting.sameReserves {L : Licence} {s s' : Books} {v : ℕ → ℤ} (h : Posting L s v s') :
    SameReserves s s' := by
  cases h with
  | paid h =>
    rw [h.rest]
    exact ⟨rfl, rfl, rfl, rfl, rfl⟩
  | createLimit | reduceLimit | removeLimit | openCall | changeCall | setCollateral | closeCall
  | createSettlement | reduceSettlement | removeSettlement | settle | redeem | setBitasset | setAsset
  | createAsset | issue | tick => exact ⟨rfl, rfl, rfl, rfl, rfl⟩

theorem SameReserves.reserves {s s' : Books} (h : SameReserves s s') : s'.reserves = s.reserves := by
  unfold Books.reserves
  rw [h.lockData, h.lockedBalances, h.vestingBalances, h.fbas, h.witnessBudget]

theorem SameReserves.regular {s s' : Books} (h : SameReserves s s') (hs : Regular s)
    (hsound : Sound s') (hcore : CoreIssued s') : Regular s' where
  toSound := hsound
  toCoreIssued := hcore
  fbas := by
    rw [h.fbas]
    exact hs.fbas

theorem SameReserves.solvent {s s' : Books} (h : SameReserves s s') (hs : Solvent s)
    (hregular : Regular s') : Solvent s' where
  toRegular := hregular
  pools := by
    rw [h.lockData]
    exact hs.pools
  receive := by
    rw [h.lockData]
    exact hs.receive
  profits := by
    rw [h.lockedBalances]
    exact hs.profits
  locks := by
    rw [h.lockedBalances]
    exact hs.locks
  vesting := by
    rw [h.vestingBalances]
    exact hs.vesting
  witnessBudget := by
    rw [h.witnessBudget]
    exact hs.witnessBudget

theorem Postings.sameReserves {L : Licence} {s s' : Books} {v : ℕ → ℤ} (h : Postings L s v s') :
    SameReserves s s' := by
  induction h with
  | refl s => exact ⟨rfl, rfl, rfl, rfl, rfl⟩
  | step hfirst _ ih =>
    have hsame := hfirst.sameReserves
    exact ⟨ih.lockData.trans hsame.lockData, ih.lockedBalances.trans hsame.lockedBalances,
      ih.vestingBalances.trans hsame.vestingBalances, ih.fbas.trans hsame.fbas,
      ih.witnessBudget.trans hsame.witnessBudget⟩

theorem Postings.wealth {L : Licence} {s s' : Books} {v : ℕ → ℤ} (h : Postings L s v s')
    (hs : Sound s) : s'.wealth = s.wealth + v := by
  unfold Books.wealth
  rw [h.worth hs, h.sameReserves.reserves]
  abel

theorem Posting.coreIssued {L : Licence} {s s' : Books} {v : ℕ → ℤ} (h : Posting L s v s')
    (hs : CoreIssued s) : CoreIssued s' := by
  cases h with
  | paid h =>
    rw [h.rest]
    exact ⟨hs.asset, hs.bitasset⟩
  | createLimit | reduceLimit | removeLimit | openCall | changeCall | setCollateral | closeCall
  | createSettlement | reduceSettlement | removeSettlement | issue | tick =>
    exact ⟨hs.asset, hs.bitasset⟩
  | settle hb => exact ⟨hs.asset, Table.lookup_modify_eq_none _ _ hs.bitasset⟩
  | redeem hL hb => exact ⟨hs.asset, Table.lookup_modify_eq_none _ _ hs.bitasset⟩
  | setBitasset hb => exact ⟨hs.asset, Table.lookup_modify_eq_none _ _ hs.bitasset⟩
  | @setAsset k a g ha =>
    refine ⟨?_, hs.bitasset⟩
    change (s.assets.modify k g).lookup core ≠ none
    rw [Table.lookup_modify]
    split
    · rw [ha]
      exact Option.some_ne_none _
    · exact hs.asset
  | @createAsset k a pool t hassets hdata hbitassets ht =>
    have hne : core ≠ k := by
      rintro rfl
      exact hs.asset hassets
    refine ⟨?_, ?_⟩
    · change (s.assets.insert k a).lookup core ≠ none
      rw [AList.lookup_insert_ne hne]
      exact hs.asset
    · change t.lookup core = none
      rcases ht with rfl | ⟨b, rfl, -⟩
      · exact hs.bitasset
      · rw [AList.lookup_insert_ne hne]
        exact hs.bitasset

theorem Postings.coreIssued {L : Licence} {s s' : Books} {v : ℕ → ℤ} (h : Postings L s v s')
    (hs : CoreIssued s) : CoreIssued s' :=
  h.keep Posting.coreIssued hs

theorem Postings.regular {L : Licence} {s s' : Books} {v : ℕ → ℤ} (h : Postings L s v s')
    (hs : Regular s) : Regular s' :=
  h.sameReserves.regular hs (h.sound hs.toSound) (h.coreIssued hs.toCoreIssued)

theorem Postings.solvent {L : Licence} {s s' : Books} {v : ℕ → ℤ} (h : Postings L s v s')
    (hs : Solvent s) : Solvent s' :=
  h.sameReserves.solvent hs (h.regular hs.toRegular)

/-! ### Steps beside the market -/

/-- A step that leaves orders and bitassets alone, and the supplies of the bitassets. -/
structure Aside (s s' : Books) : Prop where
  assets : s'.assets = s.assets
  bitassets : s'.bitassets = s.bitassets
  limitOrders : s'.limitOrders = s.limitOrders
  callOrders : s'.callOrders = s.callOrders
  settlements : s'.settlements = s.settlements
  supply : ∀ k, s.bitassets.lookup k ≠ none → supplyOf s'.dynamicData k = supplyOf s.dynamicData k
  nonneg : Sound s → BalancesNonneg s'.balances ∧ FundsNonneg s'.dynamicData ∧
    PendingNonneg s'.statistics

theorem Paid.aside {s s' : Books} {v : ℕ → ℤ} (h : Paid s v s') : Aside s s' := by
  have hrest := h.rest
  refine ⟨?_, ?_, ?_, ?_, ?_, fun k _ => congrFun h.supply k, fun hs =>
    ⟨h.balances hs.balances, h.funds hs.funds, h.pending hs.pending⟩⟩
  all_goals rw [hrest]

/-- **A step beside the market keeps the books sound.** -/
theorem Sound.of_aside {s s' : Books} (hs : Sound s) (h : Aside s s') : Sound s' where
  balances := (h.nonneg hs).1
  funds := (h.nonneg hs).2.1
  pending := (h.nonneg hs).2.2
  limits := by
    rw [h.limitOrders]
    exact hs.limits
  settlements := by
    rw [h.settlements]
    exact hs.settlements
  calls := by
    unfold Books.Lends
    rw [h.callOrders, h.bitassets]
    exact hs.calls
  feeds := by
    rw [h.bitassets]
    exact hs.feeds
  unsettled k b hb hunsettled := by
    rw [h.bitassets] at hb
    have hdebts : s'.debts = s.debts := by
      unfold Books.debts
      rw [h.callOrders]
    rw [h.supply k (by rw [hb]; exact Option.some_ne_none b), hdebts]
    exact hs.unsettled k b hb hunsettled
  settled k b hb hsettled := by
    rw [h.bitassets] at hb
    rw [h.supply k (by rw [hb]; exact Option.some_ne_none b)]
    exact hs.settled k b hb hsettled

theorem Aside.refl (s : Books) : Aside s s :=
  ⟨rfl, rfl, rfl, rfl, rfl, fun _ _ => rfl, fun hs => ⟨hs.balances, hs.funds, hs.pending⟩⟩

theorem Aside.trans {s s₁ s' : Books} (h : Aside s s₁) (h' : Aside s₁ s') : Aside s s' where
  assets := h'.assets.trans h.assets
  bitassets := h'.bitassets.trans h.bitassets
  limitOrders := h'.limitOrders.trans h.limitOrders
  callOrders := h'.callOrders.trans h.callOrders
  settlements := h'.settlements.trans h.settlements
  supply k hk := by
    rw [h'.supply k (by rw [h.bitassets]; exact hk), h.supply k hk]
  nonneg hs := h'.nonneg (hs.of_aside h)

theorem CoreIssued.of_aside {s s' : Books} (hs : CoreIssued s) (h : Aside s s') : CoreIssued s' := by
  refine ⟨?_, ?_⟩
  · rw [h.assets]
    exact hs.asset
  · rw [h.bitassets]
    exact hs.bitasset

end FinChain.Ledger
