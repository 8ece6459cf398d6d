import FinChain.Ledger.MarketPostings

/-!
# Margin calls and new orders as postings

A global settlement closes every call order of the asset: `callsOf` finds them all, since a sound
call price lies between `price::min` and `price::max`. Closing them takes the supply down to nothing
and the collateral into the fund, and then the supply is put back.

The loops over the indices keep lists of the orders they come to. What has to be known about a call
order in such a list is only that it borrows the asset, and no posting changes that.
-/

namespace FinChain.Ledger

open Exec

variable {L : Licence}

/-! ### Orders that exist already -/

/-- A call order that existed before borrows the same asset as before. -/
def OldCalls (s s' : Books) : Prop :=
  s.callOrders.next ≤ s'.callOrders.next ∧
    ∀ id o', id < s.callOrders.next → s'.callOrders.lookup id = some o' →
      ∃ o, s.callOrders.lookup id = some o ∧ o'.debtType = o.debtType

theorem OldCalls.of_eq {s s' : Books} (h : s'.callOrders = s.callOrders) : OldCalls s s' := by
  rw [OldCalls, h]
  exact ⟨le_rfl, fun id o _ ho => ⟨o, ho, rfl⟩⟩

theorem Posting.oldCalls {s s' : Books} {v : ℕ → ℤ} (h : Posting L s v s') : OldCalls s s' := by
  cases h with
  | paid h => exact .of_eq (by rw [h.rest])
  | openCall =>
    refine ⟨Nat.le_succ _, ?_⟩
    intro id o' hid ho'
    rw [Index.lookup_create, if_neg hid.ne] at ho'
    exact ⟨o', ho', rfl⟩
  | changeCall h ho htype | setCollateral h ho htype =>
    refine ⟨le_rfl, ?_⟩
    intro id o' hid ho'
    rw [Index.lookup_modify] at ho'
    split at ho'
    · next hid =>
      rw [h] at ho'
      cases ho'
      rw [hid]
      exact ⟨_, h, htype⟩
    · exact ⟨o', ho', rfl⟩
  | closeCall h =>
    refine ⟨le_rfl, ?_⟩
    intro id o' hid ho'
    rw [Index.lookup_erase] at ho'
    split at ho'
    · cases ho'
    · exact ⟨o', ho', rfl⟩
  | _ => exact .of_eq rfl

theorem Postings.oldCalls {s s' : Books} {v : ℕ → ℤ} (h : Postings L s v s') : OldCalls s s' := by
  induction h with
  | refl => exact .of_eq rfl
  | step hfirst _ ih =>
    obtain ⟨hnext, hold⟩ := hfirst.oldCalls
    refine ⟨hnext.trans ih.1, ?_⟩
    intro id o'' hid ho''
    obtain ⟨o', ho', htype'⟩ := ih.2 id o'' (hid.trans_le hnext) ho''
    obtain ⟨o, ho, htype⟩ := hold id o' hid ho'
    exact ⟨o, ho, htype'.trans htype⟩

/-- The call orders with these keys that still exist borrow an asset. -/
def Books.CallsIn (s : Books) (mia : ℕ) (ids : List ℕ) : Prop :=
  ∀ id ∈ ids, id < s.callOrders.next ∧
    ∀ o, s.callOrders.lookup id = some o → o.debtType = mia

theorem Books.CallsIn.keep {s s' : Books} {mia : ℕ} {ids : List ℕ} (hs : s.CallsIn mia ids)
    (h : OldCalls s s') : s'.CallsIn mia ids := by
  intro id hid
  obtain ⟨hlt, htype⟩ := hs id hid
  refine ⟨hlt.trans_le h.1, ?_⟩
  intro o' ho'
  obtain ⟨o, ho, hsame⟩ := h.2 id o' hlt ho'
  rw [hsame]
  exact htype o ho

/-! ### The call orders of an asset -/

theorem Price.min_eq_ok {base quote : ℕ} {p : Price} (h : Price.min base quote = .ok p) :
    base ≠ quote ∧ p = ⟨⟨1, base⟩, ⟨maxShareSupply, quote⟩⟩ := by
  unfold Price.min Asset.div at h
  split at h
  · next hne =>
    cases h
    exact ⟨hne, rfl⟩
  · cases h

theorem Price.max_eq_ok {base quote : ℕ} {p : Price} (h : Price.max base quote = .ok p) :
    base ≠ quote ∧ p = ⟨⟨maxShareSupply, base⟩, ⟨1, quote⟩⟩ := by
  unfold Price.max Asset.div at h
  split at h
  · next hne =>
    cases h
    exact ⟨hne, rfl⟩
  · cases h

/-- Small amounts are compared without overflow. -/
theorem Price.cross_eq {a b : Price} (hb : 0 ≤ b.quote.amount) (hb' : b.quote.amount < 2 ^ 64)
    (ha : 0 ≤ a.base.amount) (ha' : a.base.amount < 2 ^ 64) :
    a.cross b = b.quote.amount * a.base.amount := by
  unfold cross
  rw [uint128_of_lt hb (lt_trans hb' (by decide))]
  refine uint128_of_lt (mul_nonneg hb ha) ?_
  calc b.quote.amount * a.base.amount ≤ b.quote.amount * 2 ^ 64 :=
        mul_le_mul_of_nonneg_left ha'.le hb
    _ < 2 ^ 64 * 2 ^ 64 := mul_lt_mul_of_pos_right hb' (by decide)
    _ = 2 ^ 128 := by decide

theorem Price.lt_of_same {a b : Price} (hbase : a.base.assetId = b.base.assetId)
    (hquote : a.quote.assetId = b.quote.assetId) : a.lt b = decide (a.cross b < b.cross a) := by
  unfold lt
  rw [if_neg (not_not.mpr hbase), if_neg (not_not.mpr hquote)]

/-- A price between two prices in the same assets is in these assets. -/
theorem Price.assets_eq_of_between {low high p : Price} (hbase : low.base.assetId = high.base.assetId)
    (hquote : low.quote.assetId = high.quote.assetId) (hlow : p.lt low = false)
    (hhigh : high.lt p = false) :
    p.base.assetId = low.base.assetId ∧ p.quote.assetId = low.quote.assetId := by
  have hb : p.base.assetId = low.base.assetId := by
    by_contra hne
    rw [lt, if_pos hne] at hlow
    rw [lt, if_pos (fun h => hne (h.symm.trans hbase.symm))] at hhigh
    have h₁ := of_decide_eq_false hlow
    have h₂ := of_decide_eq_false hhigh
    omega
  refine ⟨hb, ?_⟩
  by_contra hne
  rw [lt, if_neg (not_not.mpr hb), if_pos hne] at hlow
  rw [lt, if_neg (not_not.mpr (hbase.symm.trans hb.symm)),
    if_pos (fun h => hne (h.symm.trans hquote.symm))] at hhigh
  have h₁ := of_decide_eq_false hlow
  have h₂ := of_decide_eq_false hhigh
  omega

/-- A price in range is between `price::min` and `price::max`. -/
theorem Price.InRange.between {p : Price} (hp : p.InRange) {base quote : ℕ}
    (hbase : p.base.assetId = base) (hquote : p.quote.assetId = quote) :
    p.lt ⟨⟨1, base⟩, ⟨maxShareSupply, quote⟩⟩ = false ∧
      (⟨⟨maxShareSupply, base⟩, ⟨1, quote⟩⟩ : Price).lt p = false := by
  obtain ⟨⟨hb, hb'⟩, hq, hq'⟩ := hp
  have hmax : maxShareSupply < 2 ^ 64 := by decide
  have hmaxPos : 0 < maxShareSupply := by decide
  have hone : (0 : ℤ) ≤ 1 := by decide
  have hone' : (1 : ℤ) < 2 ^ 64 := by decide
  refine ⟨?_, ?_⟩
  · rw [lt_of_same hbase hquote, cross_eq hmaxPos.le hmax (by omega) (by omega),
      cross_eq (by omega) (by omega) hone hone']
    refine decide_eq_false (not_lt.mpr ?_)
    calc p.quote.amount * 1 ≤ maxShareSupply * 1 := by omega
      _ ≤ maxShareSupply * p.base.amount := mul_le_mul_of_nonneg_left hb hmaxPos.le
  · rw [lt_of_same hbase.symm hquote.symm, cross_eq (by omega) (by omega) hmaxPos.le hmax,
      cross_eq hone hone' (by omega) (by omega)]
    refine decide_eq_false (not_lt.mpr ?_)
    calc 1 * p.base.amount ≤ 1 * maxShareSupply := by omega
      _ ≤ p.quote.amount * maxShareSupply := mul_le_mul_of_nonneg_right hq hmaxPos.le

/-- **The call orders of an asset** are all found, and no others. -/
theorem Books.callsOf_ok {s : Books} {backing mia : ℕ} {calls : List (ℕ × CallOrder)} (hs : Sound s)
    (h : s.callsOf backing mia = .ok calls) :
    (∀ e ∈ calls, s.callOrders.lookup e.1 = some e.2 ∧ e.2.debtType = mia) ∧
      ∀ id o, s.callOrders.lookup id = some o → o.debtType = mia →
        o.callPrice.base.assetId = backing → (id, o) ∈ calls := by
  unfold callsOf at h
  obtain ⟨lowest, hlowest, h⟩ := except_bind_eq_ok.mp h
  obtain ⟨-, rfl⟩ := Price.min_eq_ok hlowest
  obtain ⟨highest, hhighest, h⟩ := except_bind_eq_ok.mp h
  obtain ⟨-, rfl⟩ := Price.max_eq_ok hhighest
  cases h
  unfold callsBetween
  refine ⟨?_, ?_⟩
  · intro e he
    rw [List.mem_insertionSort, List.mem_filter, Bool.and_eq_true, Bool.not_eq_true',
      Bool.not_eq_true'] at he
    obtain ⟨hmem, hlow, hhigh⟩ := he
    exact ⟨Index.lookup_of_mem_entries hmem,
      (Price.assets_eq_of_between (by rfl) (by rfl) hlow hhigh).2⟩
  · intro id o ho htype hbase
    rw [List.mem_insertionSort, List.mem_filter, Bool.and_eq_true, Bool.not_eq_true',
      Bool.not_eq_true']
    exact ⟨Index.mem_entries_of_lookup ho, (hs.calls id o ho).1.inRange.between hbase htype⟩

theorem Index.lt_next_of_lookup {α : Type} {x : Index α} {k : ℕ} {a : α} (h : x.lookup k = some a) :
    k < x.next :=
  x.fresh k (AList.lookup_isSome.mp (by rw [show x.table.lookup k = some a from h]; rfl))

theorem Books.callsIn_of_callsOf {s : Books} {backing mia : ℕ} {calls : List (ℕ × CallOrder)}
    (hs : Sound s) (h : s.callsOf backing mia = .ok calls) :
    s.CallsIn mia (calls.map Prod.fst) := by
  intro id hid
  obtain ⟨e, he, rfl⟩ := List.mem_map.mp hid
  obtain ⟨hlookup, htype⟩ := (Books.callsOf_ok hs h).1 e he
  refine ⟨Index.lt_next_of_lookup hlookup, ?_⟩
  intro o ho
  rw [hlookup] at ho
  cases ho
  exact htype

/-! ### Global settlement -/

theorem settlementPays_nonneg {o : CallOrder} {price : Price} {pays : Asset} (ho : 0 ≤ o.collateral)
    (h : settlementPays o price = .ok pays) : 0 ≤ pays.amount := by
  unfold settlementPays at h
  obtain ⟨atPrice, hatPrice, h⟩ := except_bind_eq_ok.mp h
  obtain ⟨short, -, h⟩ := except_bind_eq_ok.mp h
  cases h
  split
  · exact ho
  · exact Asset.mul_ok hatPrice

theorem Asset.add_eq_ok {a b c : Asset} (h : a.add b = .ok c) :
    a.assetId = b.assetId ∧ c = ⟨a.amount + b.amount, a.assetId⟩ := by
  unfold Asset.add at h
  split at h
  · next hid =>
    cases h
    exact ⟨hid, rfl⟩
  · cases h

/-- What the loop over the call orders of an asset does: they are gone, their debt has left the
supply, and their collateral is gathered. -/
structure SettledCalls (L : Licence) (mia : ℕ) (ids : List ℕ) (gathered g : Asset) (s s' : Books) :
    Prop where
  assetId : g.assetId = gathered.assetId
  gathered_le : gathered.amount ≤ g.amount
  bitassets : s'.bitassets = s.bitassets
  assets : s'.assets = s.assets
  calls : ∀ id, s'.callOrders.lookup id = if id ∈ ids then none else s.callOrders.lookup id
  postings : ∀ supply, supplyOf s.dynamicData mia = some supply →
    ∃ supply', supplyOf s'.dynamicData mia = some supply' ∧
      Postings L s (Asset.vec ⟨supply - supply', mia⟩ - (g.vec - gathered.vec)) s'

theorem settleCallOrders_ok {price : Price} {mia : ℕ} {ids : List ℕ} {gathered g : Asset}
    {s s' : Books} (hs : Sound s) (hids : s.CallsIn mia ids)
    (h : settleCallOrders price ids gathered s = .ok g s') :
    SettledCalls L mia ids gathered g s s' := by
  induction ids generalizing s gathered with
  | nil =>
    obtain ⟨rfl, rfl⟩ := pure_eq_ok.mp h
    refine ⟨rfl, le_rfl, rfl, rfl, fun id => by simp, ?_⟩
    intro supply hsupply
    refine ⟨supply, hsupply, (Postings.refl s).cast ?_⟩
    rw [sub_self, Asset.vec_of_zero rfl, sub_self, sub_self]
  | cons id ids ih =>
    unfold settleCallOrders at h
    rw [get_bind] at h
    obtain ⟨o, ho, h⟩ := require_bind_eq_ok.mp h
    obtain ⟨pays, hpays, h⟩ := lift_bind_eq_ok.mp h
    obtain ⟨gathered₁, hadd, h⟩ := lift_bind_eq_ok.mp h
    obtain ⟨filled, s₁, hfill, h⟩ := bind_eq_ok.mp h
    obtain ⟨-, h⟩ := assert_bind_eq_ok.mp h
    have hsound := (hs.calls id o ho).1
    have hfirst := postings_fillCallOrder (L := L) hs ho hsound.debt_pos.le le_rfl hfill
    have htype : o.debtType = mia := (hids id List.mem_cons_self).2 o ho
    obtain ⟨hid, hgathered₁⟩ := Asset.add_eq_ok hadd
    obtain ⟨o', d, ho', -, -, -, hd, hcases⟩ := fillCallOrder_ok hfill
    rw [ho] at ho'
    cases ho'
    obtain ⟨-, -, hpaid⟩ | ⟨hne, -⟩ := hcases
    · have hids₁ : s₁.CallsIn mia ids := by
        refine Books.CallsIn.keep ?_ hfirst.oldCalls
        exact fun id' hid' => hids id' (List.mem_cons_of_mem _ hid')
      have hrest := ih (hfirst.sound hs) hids₁ h
      have hnonneg := settlementPays_nonneg hsound.collateral_nonneg hpays
      refine ⟨?_, ?_, ?_, ?_, ?_, ?_⟩
      · rw [hrest.assetId, hgathered₁]
      · refine le_trans ?_ hrest.gathered_le
        rw [hgathered₁]
        exact le_add_of_nonneg_right hnonneg
      · rw [hrest.bitassets, hpaid.rest]
      · rw [hrest.assets, hpaid.rest]
      · intro id'
        rw [hrest.calls id', hpaid.rest]
        change (if id' ∈ ids then none else (s.callOrders.erase id).lookup id') = _
        rw [Index.lookup_erase]
        by_cases hmem : id' ∈ ids
        · rw [if_pos hmem, if_pos (List.mem_cons_of_mem _ hmem)]
        · rw [if_neg hmem]
          by_cases heq : id' = id
          · rw [if_pos heq, heq, if_pos List.mem_cons_self]
          · rw [if_neg heq, if_neg]
            simp [heq, hmem]
      · intro supply hsupply
        have hsupply₁ : supplyOf s₁.dynamicData mia = some (supply - o.debt) := by
          rw [hpaid.supply, ← htype]
          change supplyOf (s.dynamicData.insert o.debtType (d.supplied (-o.debt))) o.debtType = _
          rw [supplyOf_supplied hd, htype, hsupply, Option.map_some, Asset.vec_apply, if_pos rfl]
          rfl
        obtain ⟨supply', hsupply', hpostings⟩ := hrest.postings _ hsupply₁
        refine ⟨supply', hsupply', (hfirst.trans hpostings).cast ?_⟩
        have hvec : gathered₁.vec = gathered.vec + pays.vec := by
          rw [hgathered₁, Asset.vec_add]
          congr 1
          rw [hid]
        have hdebt : o.getDebt.vec = Asset.vec ⟨o.debt, mia⟩ := by
          rw [CallOrder.getDebt, htype]
        rw [hvec, hdebt]
        simp only [Asset.vec_sub]
        abel
    · exact absurd rfl hne

/-- **`globally_settle_asset`**, where there is something to settle. -/
theorem postings_globallySettleAsset {mia : ℕ} {price : Price} {s s' : Books} {u : Unit}
    (hs : L.Keeps s)
    (hsome : (∃ supply, supplyOf s.dynamicData mia = some supply ∧ 0 < supply) ∨
      ∃ id o, s.callOrders.lookup id = some o ∧ o.debtType = mia)
    (h : globallySettleAsset mia price s = .ok u s') : Postings L s 0 s' := by
  unfold globallySettleAsset at h
  rw [get_bind] at h
  obtain ⟨b, hb, h⟩ := require_bind_eq_ok.mp h
  obtain ⟨hunsettled, h⟩ := assert_bind_eq_ok.mp h
  obtain ⟨-, -, h⟩ := require_bind_eq_ok.mp h
  obtain ⟨d, hd, h⟩ := require_bind_eq_ok.mp h
  obtain ⟨calls, hcalls, h⟩ := lift_bind_eq_ok.mp h
  obtain ⟨g, s₁, hloop, h⟩ := bind_eq_ok.mp h
  obtain ⟨settlementPrice, hprice, h⟩ := lift_bind_eq_ok.mp h
  rw [update_bind] at h
  obtain ⟨d', hd', rfl⟩ := modifyDynamicData_ok h
  have hsupply : supplyOf s.dynamicData mia = some d.currentSupply := by
    rw [supplyOf, hd, Option.map_some]
  have hloop := settleCallOrders_ok (L := L) hs.sound (Books.callsIn_of_callsOf hs.sound hcalls) hloop
  obtain ⟨supply', hsupply', hpostings⟩ := hloop.postings _ hsupply
  have hpos : 0 < d.currentSupply := by
    obtain ⟨supply, hsupply₁, hpos⟩ | ⟨id, o, ho, htype⟩ := hsome
    · rw [hsupply] at hsupply₁
      cases hsupply₁
      exact hpos
    · have hdebts := (hs.sound.unsettled mia b hb hunsettled).2
      rw [hsupply] at hdebts
      rw [Option.some.inj hdebts]
      exact hs.sound.debts_pos ho htype
  have hnone : ∀ id o, s₁.callOrders.lookup id = some o → o.debtType ≠ mia := by
    intro id o ho htype
    rw [hloop.calls id] at ho
    split at ho
    · cases ho
    · next hmem =>
      obtain ⟨-, b', hb', -, hbacking⟩ := hs.sound.calls id o ho
      rw [htype, hb] at hb'
      cases hb'
      refine hmem ?_
      have hin := (Books.callsOf_ok hs.sound hcalls).2 id o ho htype hbacking.symm
      exact List.mem_map.mpr ⟨(id, o), hin, rfl⟩
  have hne : mia ≠ b.shortBackingAsset ∧ settlementPrice = ⟨⟨d.currentSupply, mia⟩, g⟩ := by
    unfold Asset.div at hprice
    split at hprice
    · next hne =>
      cases hprice
      exact ⟨fun heq => hne (heq.trans hloop.assetId.symm), rfl⟩
    · cases hprice
  obtain ⟨hne, rfl⟩ := hne
  have hb₁ : s₁.bitassets.lookup mia = some b := by
    rw [hloop.bitassets]
    exact hb
  have hd₁ : s₁.dynamicData.lookup mia = some d' := hd'
  have hcap : ¬ L.excess → s₁.WithinMax mia d.currentSupply := by
    intro hL
    rw [Books.WithinMax, hloop.assets]
    exact hs.capped hL mia _ hsupply
  have hsettle := Posting.settle (L := L) hb₁ hunsettled hnone hd₁ hne hpos hloop.gathered_le hcap
  have hg : g = ⟨g.amount, b.shortBackingAsset⟩ := by
    rw [← show g.assetId = b.shortBackingAsset from hloop.assetId]
  have hstate : s₁.bitassets.modify mia (fun b => { b with
        settlementPrice := ⟨⟨d.currentSupply, mia⟩, g⟩, settlementFund := g.amount }) =
      s₁.bitassets.modify mia fun b => { b with
        settlementPrice := ⟨⟨d.currentSupply, mia⟩, ⟨g.amount, b.shortBackingAsset⟩⟩
        settlementFund := g.amount } := by
    rw [Table.modify_of_lookup _ hb₁, Table.modify_of_lookup _ hb₁, ← hg]
  change Postings L s 0 { s₁ with
    bitassets := s₁.bitassets.modify mia fun b => { b with
      settlementPrice := ⟨⟨d.currentSupply, mia⟩, g⟩, settlementFund := g.amount }
    dynamicData := s₁.dynamicData.insert mia { d' with currentSupply := d.currentSupply } }
  rw [hstate]
  refine (hpostings.trans (.single hsettle)).cast ?_
  have hd'supply : d'.currentSupply = supply' := by
    rw [supplyOf, hd₁, Option.map_some] at hsupply'
    exact Option.some.inj hsupply'
  rw [hd'supply, ← hg, Asset.vec_of_zero (a := ⟨0, b.shortBackingAsset⟩) rfl]
  abel

/-! ### Margin calls -/

/-- The swan price is that of a call order. -/
theorem Books.exists_call_of_swanPrice {s : Books} {mia : ℕ} {b : BitassetData} {price : Price}
    (hs : Sound s) (h : s.swanPrice mia b = .ok (some price)) :
    ∃ id o, s.callOrders.lookup id = some o ∧ o.debtType = mia := by
  unfold swanPrice at h
  obtain ⟨highest, -, h⟩ := except_bind_eq_ok.mp h
  obtain ⟨calls, hcalls, h⟩ := except_bind_eq_ok.mp h
  cases calls with
  | nil => cases h
  | cons e calls => exact ⟨e.1, e.2, (Books.callsOf_ok hs hcalls).1 e List.mem_cons_self⟩

theorem postings_checkForBlackswan {mia : ℕ} {enable settled : Bool} {s s' : Books} (hs : L.Keeps s)
    (h : checkForBlackswan mia enable s = .ok settled s') : Postings L s 0 s' := by
  unfold checkForBlackswan at h
  rw [get_bind] at h
  cases hb : s.bitassets.lookup mia with
  | none =>
    rw [hb] at h
    obtain ⟨-, rfl⟩ := pure_eq_ok.mp h
    exact .refl s
  | some b =>
    rw [hb] at h
    simp only at h
    split at h
    · obtain ⟨-, rfl⟩ := pure_eq_ok.mp h
      exact .refl s
    split at h
    · obtain ⟨-, rfl⟩ := pure_eq_ok.mp h
      exact .refl s
    obtain ⟨swan, hswan, h⟩ := lift_bind_eq_ok.mp h
    cases swan with
    | none =>
      obtain ⟨-, rfl⟩ := pure_eq_ok.mp h
      exact .refl s
    | some price =>
      unfold settleAtSwanPrice at h
      obtain ⟨-, h⟩ := assert_bind_eq_ok.mp h
      obtain ⟨_, s₁, hsettle, h⟩ := bind_eq_ok.mp h
      obtain ⟨-, rfl⟩ := pure_eq_ok.mp h
      exact postings_globallySettleAsset hs
        (.inr (Books.exists_call_of_swanPrice hs.sound hswan)) hsettle

/-- A margin call is for no more than the call order needs and the limit order offers. -/
theorem marginCallAmounts_ok {usdToBuy usdForSale receives pays : Asset} {price : Price}
    {callFilled limitFilled : Bool}
    (h : marginCallAmounts usdToBuy usdForSale price = .ok (receives, pays, callFilled, limitFilled)) :
    receives.amount = min usdToBuy.amount usdForSale.amount := by
  unfold marginCallAmounts at h
  obtain ⟨filled, hfilled, h⟩ := except_bind_eq_ok.mp h
  unfold Asset.ge at hfilled
  cases hlt : usdToBuy.lt usdForSale with
  | error e =>
    rw [hlt] at hfilled
    cases hfilled
  | ok less =>
    rw [hlt] at hfilled
    cases hfilled
    obtain ⟨-, hless⟩ := Asset.lt_eq_ok hlt
    split at h
    · next hge =>
      obtain ⟨_, -, h⟩ := except_bind_eq_ok.mp h
      cases h
      have hfalse : less = false := by simpa using hge
      have hle : usdForSale.amount ≤ usdToBuy.amount := by
        refine not_lt.mp fun hlt' => ?_
        rw [hless.mpr hlt'] at hfalse
        cases hfalse
      exact (min_eq_right hle).symm
    · next hlt' =>
      obtain ⟨_, -, h⟩ := except_bind_eq_ok.mp h
      cases h
      have htrue : less = true := by simpa using hlt'
      exact (min_eq_left (hless.mp htrue).le).symm

theorem postings_executeMarginCall {call limit : ℕ} {callOrder : CallOrder} {limitOrder : LimitOrder}
    {price : Price} {filledLimit : Bool} {result : MarginCall} {s s' : Books} (hs : Sound s)
    (hcall : s.callOrders.lookup call = some callOrder)
    (hlimit : s.limitOrders.lookup limit = some limitOrder)
    (h : executeMarginCall call limit callOrder.getDebt limitOrder.amountForSale price filledLimit s =
      .ok result s') : Postings L s 0 s' := by
  unfold executeMarginCall at h
  obtain ⟨⟨receives, pays, callFilled, limitFilled⟩, hamounts, h⟩ := lift_bind_eq_ok.mp h
  obtain ⟨_, s₁, hfillCall, h⟩ := bind_eq_ok.mp h
  obtain ⟨_, s₂, hfillLimit, h⟩ := bind_eq_ok.mp h
  obtain ⟨-, rfl⟩ := pure_eq_ok.mp h
  have hdebt := (hs.calls call callOrder hcall).1.debt_pos
  have hforSale := (hs.limits limit limitOrder hlimit).forSale_pos
  have hamount := marginCallAmounts_ok hamounts
  change receives.amount = min callOrder.debt limitOrder.forSale at hamount
  have hnonneg : 0 ≤ receives.amount := by omega
  have hleDebt : receives.amount ≤ callOrder.debt := by omega
  have hleForSale : receives.amount ≤ limitOrder.forSale := by omega
  have hlookup : s₁.limitOrders.lookup limit = some limitOrder := by
    obtain ⟨o, d, -, -, -, -, -, hfill⟩ := fillCallOrder_ok hfillCall
    rcases hfill with ⟨-, -, hpaid⟩ | ⟨-, -, hpaid⟩
    · rw [hpaid.rest]
      exact hlimit
    · rw [hpaid.rest]
      exact hlimit
  refine ((postings_fillCallOrder hs hcall hnonneg hleDebt hfillCall).trans
    (postings_fillLimitOrder hlookup hnonneg hleForSale hfillLimit)).cast ?_
  abel

theorem postings_marginCallRound {mia : ℕ} {b : BitassetData} {enable filledLimit called : Bool}
    {call limit : ℕ} {result : MarginCall} {s s' : Books} (hs : L.Keeps s)
    (hcalls : s.CallsIn mia [call])
    (h : marginCallRound mia b enable call limit filledLimit called s = .ok result s') :
    Postings L s 0 s' := by
  unfold marginCallRound at h
  rw [get_bind] at h
  obtain ⟨limitOrder, hlimit, h⟩ := require_bind_eq_ok.mp h
  obtain ⟨callOrder, hcall, h⟩ := require_bind_eq_ok.mp h
  obtain ⟨-, -, h⟩ := lift_bind_eq_ok.mp h
  split at h
  · obtain ⟨-, rfl⟩ := pure_eq_ok.mp h
    exact .refl s
  obtain ⟨cost, -, h⟩ := lift_bind_eq_ok.mp h
  obtain ⟨swan, -, h⟩ := lift_bind_eq_ok.mp h
  unfold callOrSettle at h
  split at h
  · obtain ⟨-, h⟩ := assert_bind_eq_ok.mp h
    obtain ⟨_, s₁, hsettle, h⟩ := bind_eq_ok.mp h
    obtain ⟨-, rfl⟩ := pure_eq_ok.mp h
    have htype := (hcalls call List.mem_cons_self).2 callOrder hcall
    exact postings_globallySettleAsset hs (.inr ⟨call, callOrder, hcall, htype⟩) hsettle
  · exact postings_executeMarginCall hs.sound hcall hlimit h

theorem postings_marginCallLoop {mia : ℕ} {b : BitassetData} {enable : Bool} {fuel : ℕ}
    {calls limits : List ℕ} {filledLimit called result : Bool} {s s' : Books} (hs : L.Keeps s)
    (hcalls : s.CallsIn mia calls)
    (h : marginCallLoop mia b enable fuel calls limits filledLimit called s = .ok result s') :
    Postings L s 0 s' := by
  induction fuel generalizing s calls limits filledLimit called with
  | zero =>
    unfold marginCallLoop at h
    obtain ⟨settled, s₁, hswan, h⟩ := bind_eq_ok.mp h
    obtain ⟨-, rfl⟩ := pure_eq_ok.mp h
    exact postings_checkForBlackswan hs hswan
  | succ fuel ih =>
    unfold marginCallLoop at h
    obtain ⟨settled, s₁, hswan, h⟩ := bind_eq_ok.mp h
    have hfirst := postings_checkForBlackswan hs hswan
    have hs₁ := hfirst.keeps hs
    have hcalls₁ := hcalls.keep hfirst.oldCalls
    cases settled with
    | true =>
      obtain ⟨-, rfl⟩ := pure_eq_ok.mp h
      exact hfirst
    | false =>
      cases calls with
      | nil =>
        obtain ⟨-, rfl⟩ := pure_eq_ok.mp h
        exact hfirst
      | cons call calls =>
        cases limits with
        | nil =>
          obtain ⟨-, rfl⟩ := pure_eq_ok.mp h
          exact hfirst
        | cons limit limits =>
          obtain ⟨round, s₂, hround, h⟩ := bind_eq_ok.mp h
          have hone : s₁.CallsIn mia [call] :=
            fun id hid => hcalls₁ id (by rw [List.mem_singleton.mp hid]; exact List.mem_cons_self)
          have hsecond := postings_marginCallRound hs₁ hone hround
          have hboth := (hfirst.trans hsecond).cast (add_zero 0)
          cases round with
          | stop result' =>
            obtain ⟨-, rfl⟩ := pure_eq_ok.mp h
            exact hboth
          | called filledCall filledLimit' =>
            have hcalls₂ := hcalls₁.keep hsecond.oldCalls
            refine (hboth.trans (ih (hsecond.keeps hs₁) ?_ h)).cast (add_zero 0)
            intro id hid
            refine hcalls₂ id ?_
            split at hid
            · exact List.mem_cons_of_mem _ hid
            · exact hid

theorem postings_checkCallOrders {mia : ℕ} {enable called : Bool} {s s' : Books} (hs : L.Keeps s)
    (h : checkCallOrders mia enable s = .ok called s') : Postings L s 0 s' := by
  unfold checkCallOrders at h
  rw [get_bind] at h
  cases hb : s.bitassets.lookup mia with
  | none =>
    rw [hb] at h
    obtain ⟨-, rfl⟩ := pure_eq_ok.mp h
    exact .refl s
  | some b =>
    rw [hb] at h
    simp only at h
    obtain ⟨settled, s₁, hswan, h⟩ := bind_eq_ok.mp h
    have hfirst := postings_checkForBlackswan hs hswan
    have hs₁ := hfirst.keeps hs
    split at h
    · obtain ⟨-, rfl⟩ := pure_eq_ok.mp h
      exact hfirst
    unfold callMargins at h
    split at h
    · obtain ⟨-, rfl⟩ := pure_eq_ok.mp h
      exact hfirst
    rw [get_bind] at h
    obtain ⟨⟨calls, limits⟩, hlists, h⟩ := lift_bind_eq_ok.mp h
    change callMarginsOf mia b enable (calls.map Prod.fst) (limits.map Prod.fst) s₁ = _ at h
    unfold callMarginsOf at h
    split at h
    · obtain ⟨-, rfl⟩ := pure_eq_ok.mp h
      exact hfirst
    unfold Books.marginCalls at hlists
    obtain ⟨maxPrice, -, hlists⟩ := except_bind_eq_ok.mp hlists
    obtain ⟨minPrice, -, hlists⟩ := except_bind_eq_ok.mp hlists
    obtain ⟨calls', hcalls, hlists⟩ := except_bind_eq_ok.mp hlists
    cases hlists
    have hin := Books.callsIn_of_callsOf hs₁.sound hcalls
    exact (hfirst.trans (postings_marginCallLoop hs₁ hin h)).cast (add_zero 0)

/-! ### New orders -/

theorem postings_matchOrders {orderId : ℕ} {ids : List ℕ} {s s' : Books} {u : Unit} (hs : L.Keeps s)
    (h : matchOrders orderId ids s = .ok u s') : Postings L s 0 s' := by
  induction ids generalizing s with
  | nil =>
    obtain ⟨-, rfl⟩ := pure_eq_ok.mp h
    exact .refl s
  | cons id ids ih =>
    unfold matchOrders at h
    rw [get_bind] at h
    obtain ⟨old, hold, h⟩ := require_bind_eq_ok.mp h
    obtain ⟨⟨newFilled, oldFilled⟩, s₁, hmatch, h⟩ := bind_eq_ok.mp h
    have hfirst := postings_matchLimitOrders (L := L) hs.sound hold hmatch
    simp only at h
    split at h
    · exact (hfirst.trans (ih (hfirst.keeps hs) h)).cast (add_zero 0)
    · obtain ⟨-, rfl⟩ := pure_eq_ok.mp h
      exact hfirst

theorem postings_cullNewOrder {orderId : ℕ} {filled : Bool} {s s' : Books}
    (h : cullNewOrder orderId s = .ok filled s') : Postings L s 0 s' := by
  unfold cullNewOrder at h
  rw [get_bind] at h
  cases ho : s.limitOrders.lookup orderId with
  | none =>
    rw [ho] at h
    obtain ⟨-, rfl⟩ := pure_eq_ok.mp h
    exact .refl s
  | some o =>
    rw [ho] at h
    simp only at h
    split at h
    · obtain ⟨-, rfl⟩ := pure_eq_ok.mp h
      exact .refl s
    · rcases maybeCullSmallOrder_ok h with ⟨-, rfl⟩ | ⟨-, hcancel⟩
      · exact .refl s'
      · exact postings_cancelLimitOrder hcancel

theorem postings_applyOrder {orderId : ℕ} {allow filled : Bool} {s s' : Books} (hs : L.Keeps s)
    (h : applyOrder orderId allow s = .ok filled s') : Postings L s 0 s' := by
  unfold applyOrder at h
  rw [get_bind] at h
  obtain ⟨order, -, h⟩ := require_bind_eq_ok.mp h
  obtain ⟨receives, -, h⟩ := lift_bind_eq_ok.mp h
  obtain ⟨-, -, h⟩ := require_bind_eq_ok.mp h
  obtain ⟨-, -, h⟩ := require_bind_eq_ok.mp h
  obtain ⟨calledSell, s₁, hsell, h⟩ := bind_eq_ok.mp h
  obtain ⟨calledReceive, s₂, hreceive, h⟩ := bind_eq_ok.mp h
  have h₁ := postings_checkCallOrders hs hsell
  have h₂ := (h₁.trans (postings_checkCallOrders (h₁.keeps hs) hreceive)).cast (add_zero 0)
  unfold applyUncalledOrder at h
  rw [get_bind] at h
  split at h
  · obtain ⟨-, rfl⟩ := pure_eq_ok.mp h
    exact h₂
  obtain ⟨_, s₃, hmatch, h⟩ := bind_eq_ok.mp h
  obtain ⟨_, s₄, hsell', h⟩ := bind_eq_ok.mp h
  obtain ⟨_, s₅, hreceive', h⟩ := bind_eq_ok.mp h
  unfold matchNewOrder at hmatch
  rw [get_bind] at hmatch
  obtain ⟨highest, -, hmatch⟩ := lift_bind_eq_ok.mp hmatch
  have h₃ := (h₂.trans (postings_matchOrders (h₂.keeps hs) hmatch)).cast (add_zero 0)
  have h₄ := (h₃.trans (postings_checkCallOrders (h₃.keeps hs) hsell')).cast (add_zero 0)
  have h₅ := (h₄.trans (postings_checkCallOrders (h₄.keeps hs) hreceive')).cast (add_zero 0)
  exact (h₅.trans (postings_cullNewOrder h)).cast (add_zero 0)

end FinChain.Ledger
