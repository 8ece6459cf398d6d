import FinChain.Ledger.Stake
import FinChain.Lib.SortedLists

/-!
# The least collateralized position

`check_for_blackswan` and `check_call_orders` look at the first call order by `call_price` and take
it for the least collateralized one. But the call price of an order is the one of its last update: it
depends on the maintenance ratio of that time, it is rounded when it is made of large amounts, and it
stays as it is when the order is partly filled.

The two orders agree as long as the call prices of an asset are all at one ratio (`PricedAlike`): then
they are the collateralizations, multiplied by a constant. An asset with one position has nothing to
agree on. What can end this is a fill of a part of a position at another rate than its own, an update
when the other positions are priced at another ratio than the present one, and rounding; in every run
without these the first call order is the least collateralized (`first_is_least`).
-/

namespace FinChain.Ledger

open Exec

/-! ### Prices as numbers -/

/-- A price as a number. -/
def Price.value (p : Price) : ℚ := p.base.amount / p.quote.amount

theorem Price.InRange.quote_pos {p : Price} (h : p.InRange) : (0 : ℚ) < p.quote.amount := by
  exact_mod_cast h.2.1

theorem Price.InRange.base_pos {p : Price} (h : p.InRange) : (0 : ℚ) < p.base.amount := by
  exact_mod_cast h.1.1

/-- Prices in range and in the same assets are compared as numbers. -/
theorem Price.lt_iff_value {a b : Price} (ha : a.InRange) (hb : b.InRange)
    (hbase : a.base.assetId = b.base.assetId) (hquote : a.quote.assetId = b.quote.assetId) :
    a.lt b = true ↔ a.value < b.value := by
  obtain ⟨⟨hab, hab'⟩, haq, haq'⟩ := id ha
  obtain ⟨⟨hbb, hbb'⟩, hbq, hbq'⟩ := id hb
  have hmax : maxShareSupply < 2 ^ 64 := by decide
  rw [Price.lt_of_same hbase hquote, decide_eq_true_iff,
    Price.cross_eq (by omega) (by omega) (by omega) (by omega),
    Price.cross_eq (by omega) (by omega) (by omega) (by omega)]
  unfold value
  rw [div_lt_div_iff₀ ha.quote_pos hb.quote_pos]
  constructor
  · intro h
    have h' : ((b.quote.amount * a.base.amount : ℤ) : ℚ) < (a.quote.amount * b.base.amount : ℤ) := by
      exact_mod_cast h
    push_cast at h'
    linarith
  · intro h
    have h' : ((b.quote.amount * a.base.amount : ℤ) : ℚ) < (a.quote.amount * b.base.amount : ℤ) := by
      push_cast
      linarith
    exact_mod_cast h'

/-- **The first call order** of an asset by call price has the lowest one. -/
theorem Books.callsOf_head {s : Books} {backing mia : ℕ} {calls : List (ℕ × CallOrder)}
    {e : ℕ × CallOrder} (hs : Sound s) (h : s.callsOf backing mia = .ok calls)
    (he : calls.head? = some e) :
    e ∈ calls ∧ ∀ y ∈ calls, e.2.callPrice.value ≤ y.2.callPrice.value := by
  unfold callsOf at h
  obtain ⟨lowest, hlowest, h⟩ := except_bind_eq_ok.mp h
  obtain ⟨-, rfl⟩ := Price.min_eq_ok hlowest
  obtain ⟨highest, hhighest, h⟩ := except_bind_eq_ok.mp h
  obtain ⟨-, rfl⟩ := Price.max_eq_ok hhighest
  cases h
  unfold callsBetween at he ⊢
  -- what is sorted are prices in range and in the same assets
  have hall : ∀ y ∈ s.callOrders.entries.filter fun e =>
      !e.2.callPrice.lt ⟨⟨1, backing⟩, ⟨maxShareSupply, mia⟩⟩ &&
        !(⟨⟨maxShareSupply, backing⟩, ⟨1, mia⟩⟩ : Price).lt e.2.callPrice,
      y.2.callPrice.InRange ∧ y.2.callPrice.base.assetId = backing ∧
        y.2.callPrice.quote.assetId = mia := by
    intro y hy
    rw [List.mem_filter, Bool.and_eq_true, Bool.not_eq_true', Bool.not_eq_true'] at hy
    obtain ⟨hmem, hlow, hhigh⟩ := hy
    exact ⟨(hs.calls y.1 y.2 (Index.lookup_of_mem_entries hmem)).1.inRange,
      Price.assets_eq_of_between (by rfl) (by rfl) hlow hhigh⟩
  generalize s.callOrders.entries.filter _ = l at he hall ⊢
  have hlt : ∀ a ∈ l, ∀ b ∈ l,
      (a.2.callPrice.lt b.2.callPrice = true ↔ a.2.callPrice.value < b.2.callPrice.value) := by
    intro a ha b hb
    obtain ⟨hrange, hbase, hquote⟩ := hall a ha
    obtain ⟨hrange', hbase', hquote'⟩ := hall b hb
    exact Price.lt_iff_value hrange hrange' (hbase.trans hbase'.symm) (hquote.trans hquote'.symm)
  have hbefore : ∀ a ∈ l, ∀ b ∈ l, (callBefore CallOrder.callPrice a b ↔
      a.2.callPrice.value < b.2.callPrice.value ∨
        a.2.callPrice.value ≤ b.2.callPrice.value ∧ a.1 ≤ b.1) := by
    intro a ha b hb
    unfold callBefore
    rw [hlt a ha b hb, ← Bool.not_eq_true, hlt b hb a ha, not_lt]
  have hfirst := List.head?_insertionSort (r := callBefore CallOrder.callPrice) (l := l) ?_ ?_ he
  · refine ⟨(List.mem_insertionSort _).mpr hfirst.1, ?_⟩
    intro y hy
    have hmem := (List.mem_insertionSort _).mp hy
    rcases (hbefore e hfirst.1 y hmem).mp (hfirst.2 y hmem) with hless | ⟨hle, -⟩
    · exact hless.le
    · exact hle
  · intro a ha b hb
    rw [hbefore a ha b hb, hbefore b hb a ha]
    rcases lt_trichotomy a.2.callPrice.value b.2.callPrice.value with hless | heq | hless
    · exact .inl (.inl hless)
    · rcases le_total a.1 b.1 with hid | hid
      · exact .inl (.inr ⟨heq.le, hid⟩)
      · exact .inr (.inr ⟨heq.ge, hid⟩)
    · exact .inr (.inl hless)
  · intro a ha b hb c hc
    rw [hbefore a ha b hb, hbefore b hb c hc, hbefore a ha c hc]
    rintro (hab | ⟨hab, hid⟩) (hbc | ⟨hbc, hid'⟩)
    · exact .inl (hab.trans hbc)
    · exact .inl (hab.trans_le hbc)
    · exact .inl (hab.trans_lt hbc)
    · exact .inr ⟨hab.trans hbc, hid.trans hid'⟩

/-! ### Positions at one ratio -/

/-- The call price of the order is its collateralization at the ratio `m`. -/
def CallOrder.PricedAt (o : CallOrder) (m : ℚ) : Prop :=
  (o.callPrice.quote.amount : ℚ) * (o.collateral * 1000) = o.callPrice.base.amount * (o.debt * m)

/-- An asset has one position at most. -/
def Books.OnePosition (s : Books) (k : ℕ) : Prop :=
  ∀ i j o o', s.callOrders.lookup i = some o → s.callOrders.lookup j = some o' → o.debtType = k →
    o'.debtType = k → i = j

/-- The positions of an asset are priced at one ratio. -/
def Books.PricedAlike (s : Books) (k : ℕ) : Prop :=
  s.OnePosition k ∨
    ∃ m, ∀ i o, s.callOrders.lookup i = some o → o.debtType = k → o.PricedAt m

/-- The first call order of an asset by call price is the least collateralized. -/
def Books.FirstIsLeast (s : Books) (k : ℕ) : Prop :=
  ∀ b calls, s.bitassets.lookup k = some b → b.hasSettlement = false →
    s.callsOf b.shortBackingAsset k = .ok calls →
    ∀ i o, s.callOrders.lookup i = some o → o.debtType = k →
      ∃ first, calls.head? = some first ∧ s.callOrders.lookup first.1 = some first.2 ∧
        first.2.debtType = k ∧ first.2.collateral * o.debt ≤ o.collateral * first.2.debt

/-- Positions at one ratio are ordered by collateralization. -/
theorem CallOrder.PricedAt.le {o o' : CallOrder} {m : ℚ} (ho : o.Sound) (ho' : o'.Sound)
    (h : o.PricedAt m) (h' : o'.PricedAt m) (hle : o.callPrice.value ≤ o'.callPrice.value) :
    o.collateral * o'.debt ≤ o'.collateral * o.debt := by
  have hq := ho.inRange.quote_pos
  have hq' := ho'.inRange.quote_pos
  have hb := ho.inRange.base_pos
  have hdebt : (0 : ℚ) < o.debt := by exact_mod_cast ho.debt_pos
  have hdebt' : (0 : ℚ) < o'.debt := by exact_mod_cast ho'.debt_pos
  have hcollateral : (0 : ℚ) ≤ o.collateral := by exact_mod_cast ho.collateral_nonneg
  unfold PricedAt at h h'
  unfold Price.value at hle
  rw [div_le_div_iff₀ hq hq'] at hle
  have hm : 0 ≤ m := by
    have hnonneg : 0 ≤ o.callPrice.base.amount * (o.debt * m) := by
      rw [← h]
      positivity
    by_contra hneg
    have hneg' : o.debt * m < 0 := mul_neg_of_pos_of_neg hdebt (not_le.mp hneg)
    exact absurd (mul_neg_of_pos_of_neg hb hneg') (not_lt.mpr hnonneg)
  have hfactor : (0 : ℚ) < 1000 * (o.callPrice.quote.amount * o'.callPrice.quote.amount) := by
    positivity
  have hscaled : (o.collateral * o'.debt : ℚ) *
      (1000 * (o.callPrice.quote.amount * o'.callPrice.quote.amount)) ≤
        o'.collateral * o.debt * (1000 * (o.callPrice.quote.amount * o'.callPrice.quote.amount)) := by
    calc (o.collateral * o'.debt : ℚ) *
          (1000 * (o.callPrice.quote.amount * o'.callPrice.quote.amount))
        = o.callPrice.quote.amount * (o.collateral * 1000) * (o'.debt * o'.callPrice.quote.amount) := by
          ring
      _ = o.callPrice.base.amount * (o.debt * m) * (o'.debt * o'.callPrice.quote.amount) := by rw [h]
      _ = o.callPrice.base.amount * o'.callPrice.quote.amount * (o.debt * o'.debt * m) := by ring
      _ ≤ o'.callPrice.base.amount * o.callPrice.quote.amount * (o.debt * o'.debt * m) :=
          mul_le_mul_of_nonneg_right hle (by positivity)
      _ = o'.callPrice.base.amount * (o'.debt * m) * (o.debt * o.callPrice.quote.amount) := by ring
      _ = o'.callPrice.quote.amount * (o'.collateral * 1000) *
            (o.debt * o.callPrice.quote.amount) := by rw [h']
      _ = o'.collateral * o.debt *
            (1000 * (o.callPrice.quote.amount * o'.callPrice.quote.amount)) := by ring
  exact_mod_cast le_of_mul_le_mul_right hscaled hfactor

/-- **The order of the index is the order of collateralization** where positions are priced alike. -/
theorem Books.PricedAlike.firstIsLeast {s : Books} {k : ℕ} (hs : Sound s) (h : s.PricedAlike k) :
    s.FirstIsLeast k := by
  intro b calls hb hunsettled hcalls i o ho htype
  obtain ⟨hsound, hall⟩ := Books.callsOf_ok hs hcalls
  -- the position is found, so there is a first one
  obtain ⟨b', hb', -, hbacking⟩ := (hs.calls i o ho).2
  rw [htype, hb] at hb'
  cases hb'
  have hmem : (i, o) ∈ calls := hall i o ho htype hbacking.symm
  obtain ⟨first, hfirst⟩ := Option.isSome_iff_exists.mp
    (List.isSome_head?.mpr (List.ne_nil_of_mem hmem))
  obtain ⟨hin, hleast⟩ := Books.callsOf_head hs hcalls hfirst
  obtain ⟨hlookup, htype'⟩ := hsound first hin
  refine ⟨first, hfirst, hlookup, htype', ?_⟩
  rcases h with hone | ⟨m, hm⟩
  · have hsame := hone first.1 i first.2 o hlookup ho htype' htype
    rw [hsame, ho] at hlookup
    cases hlookup
    exact le_refl _
  · exact (hm _ _ hlookup htype').le (hs.calls _ _ hlookup).1 (hs.calls _ _ ho).1 (hm i o ho htype)
      (hleast (i, o) hmem)

/-! ### Call prices that are not rounded -/

/-- The call price of a position before it is made of small numbers. -/
def exactCallPrice (debt collateral : ℤ) (ratio : ℕ) : ℚ :=
  Rat.divInt debt collateral * Rat.divInt ratio collateralRatioDenom

/-- The numbers are small. -/
def Unrounded (price : ℚ) : Prop := price.num ≤ maxShareSupply ∧ (price.den : ℤ) ≤ maxShareSupply

/-- **A call price that is not rounded** is the collateralization at the ratio. -/
theorem Price.callPrice_exact {debt collateral : Asset} {ratio : ℕ} {p : Price}
    (hsmall : Unrounded (exactCallPrice debt.amount collateral.amount ratio))
    (h : callPrice debt collateral ratio = .ok p) :
    (p.quote.amount : ℚ) * (collateral.amount * 1000) = p.base.amount * (debt.amount * ratio) := by
  unfold callPrice at h
  split at h
  · cases h
  next hne =>
  change (Asset.div ⟨(shrink _ 128 (exactCallPrice _ _ _)).num, _⟩
    ⟨(shrink _ 128 (exactCallPrice _ _ _)).den, _⟩).map inv = _ at h
  have hshrink : shrink (fun n => n / 2 + 1) 128
      (exactCallPrice debt.amount collateral.amount ratio) =
        exactCallPrice debt.amount collateral.amount ratio := by
    rw [shrink, if_neg]
    rw [not_or, not_lt, not_lt]
    exact hsmall
  rw [hshrink] at h
  unfold Asset.div at h
  simp only at h
  split at h
  · cases h
    have hvalue := Rat.num_div_den (exactCallPrice debt.amount collateral.amount ratio)
    have hden : ((exactCallPrice debt.amount collateral.amount ratio).den : ℚ) ≠ 0 := by
      exact_mod_cast (exactCallPrice debt.amount collateral.amount ratio).den_nz
    have hcollateral : (collateral.amount : ℚ) ≠ 0 := by exact_mod_cast hne
    have hexact : exactCallPrice debt.amount collateral.amount ratio =
        debt.amount * ratio / (collateral.amount * 1000) := by
      unfold exactCallPrice collateralRatioDenom
      rw [Rat.divInt_eq_div, Rat.divInt_eq_div, div_mul_div_comm]
      push_cast
      rfl
    rw [hexact] at hvalue hden
    rw [div_eq_div_iff hden (by positivity)] at hvalue
    change ((exactCallPrice debt.amount collateral.amount ratio).num : ℚ) *
      (collateral.amount * 1000) =
        ((exactCallPrice debt.amount collateral.amount ratio).den : ℤ) * (debt.amount * ratio)
    rw [hexact, hvalue]
    push_cast
    ring
  · cases h

/-! ### What the actions do to call prices -/

section Keep

variable {s s' : Books}

theorem Books.OnePosition.keep {k : ℕ} (hs : s.OnePosition k)
    (h : ∀ i o', s'.callOrders.lookup i = some o' → o'.debtType = k →
      ∃ o, s.callOrders.lookup i = some o ∧ o.debtType = k) : s'.OnePosition k := by
  intro i j o o' ho ho' htype htype'
  obtain ⟨p, hp, hptype⟩ := h i o ho htype
  obtain ⟨p', hp', hptype'⟩ := h j o' ho' htype'
  exact hs i j p p' hp hp' hptype hptype'

/-- Positions that stay as they were. -/
theorem Books.PricedAlike.keep {k : ℕ} (hs : s.PricedAlike k)
    (h : ∀ i o, s'.callOrders.lookup i = some o → o.debtType = k → s.callOrders.lookup i = some o) :
    s'.PricedAlike k := by
  rcases hs with hone | ⟨m, hm⟩
  · exact .inl (hone.keep fun i o ho htype => ⟨o, h i o ho htype, htype⟩)
  · exact .inr ⟨m, fun i o ho htype => hm i o (h i o ho htype) htype⟩

/-- What is left of a position is collateralized as the position was. -/
theorem CallOrder.PricedAt.reduce {o : CallOrder} {m : ℚ} {x y : ℤ} (h : o.PricedAt m)
    (hdebt : o.debt ≠ 0) (hxy : y * o.debt = x * o.collateral) :
    CallOrder.PricedAt { o with debt := o.debt - x, collateral := o.collateral - y } m := by
  unfold PricedAt at h ⊢
  have hdebt' : (o.debt : ℚ) ≠ 0 := by exact_mod_cast hdebt
  have hxy' : (y : ℚ) * o.debt = x * o.collateral := by exact_mod_cast hxy
  simp only [Int.cast_sub]
  refine mul_left_cancel₀ hdebt' ?_
  calc (o.debt : ℚ) * (o.callPrice.quote.amount * ((o.collateral - y) * 1000))
      = o.callPrice.quote.amount * ((o.collateral * o.debt - y * o.debt) * 1000) := by ring
    _ = o.callPrice.quote.amount * (o.collateral * 1000) * (o.debt - x) := by
        rw [hxy']
        ring
    _ = o.callPrice.base.amount * (o.debt * m) * (o.debt - x) := by rw [h]
    _ = o.debt * (o.callPrice.base.amount * ((o.debt - x) * m)) := by ring

/-- The position is filled completely, or at the rate of its own collateral to its debt, or it is the
only one of its asset. -/
def Books.FillsAlike (s : Books) (id : ℕ) (pays receives : Asset) : Prop :=
  ∀ o, s.callOrders.lookup id = some o → receives.amount = o.debt ∨
    (o.debt ≠ 0 ∧ pays.amount * o.debt = receives.amount * o.collateral) ∨
      ∀ i o', s.callOrders.lookup i = some o' → o'.debtType = o.debtType → i = id

theorem Books.PricedAlike.fill {id : ℕ} {pays receives : Asset} {filled : Bool}
    (hC : s.FillsAlike id pays receives) (h : fillCallOrder id pays receives s = .ok filled s')
    (hs : ∀ k, s.PricedAlike k) (k : ℕ) : s'.PricedAlike k := by
  obtain ⟨o, ho, -, hcalls⟩ := fillCallOrder_calls h
  split at hcalls
  · refine (hs k).keep fun i o' ho' _ => ?_
    rw [hcalls, Index.lookup_erase] at ho'
    split at ho'
    · cases ho'
    · exact ho'
  next hdebt =>
  have hlookup : ∀ i, s'.callOrders.lookup i = if i = id then some
      { o with debt := o.debt - receives.amount, collateral := o.collateral - pays.amount } else
        s.callOrders.lookup i := by
    intro i
    rw [hcalls, Index.lookup_modify, ho, Option.map_some]
  have hold : ∀ i o', s'.callOrders.lookup i = some o' → o'.debtType = k →
      ∃ o, s.callOrders.lookup i = some o ∧ o.debtType = k := by
    intro i o' ho' htype
    rw [hlookup] at ho'
    split at ho'
    · next hi =>
      cases ho'
      exact ⟨o, by rw [hi, ho], htype⟩
    · exact ⟨o', ho', htype⟩
  rcases hC o ho with hall | ⟨hne, hrate⟩ | honly
  · exact absurd hall.symm hdebt
  · rcases hs k with hone | ⟨m, hm⟩
    · exact .inl (hone.keep hold)
    · refine .inr ⟨m, ?_⟩
      intro i o' ho' htype
      rw [hlookup] at ho'
      split at ho'
      · cases ho'
        exact (hm id o ho htype).reduce hne hrate
      · exact hm i o' ho' htype
  · by_cases htype : o.debtType = k
    · -- the only position of its asset
      refine .inl (Books.OnePosition.keep (s := s) ?_ hold)
      intro i j p p' hp hp' hptype hptype'
      rw [honly i p hp (hptype.trans htype.symm), honly j p' hp' (hptype'.trans htype.symm)]
    · refine (hs k).keep fun i o' ho' htype' => ?_
      rw [hlookup] at ho'
      split at ho'
      · cases ho'
        exact absurd htype' htype
      · exact ho'

/-! ### Changing a position -/

/-- Debt and collateral of the position of the account, as the operation leaves them. -/
def CallOrderUpdate.amounts (op : CallOrderUpdate) : Option (ℕ × CallOrder) → ℤ × ℤ
  | none => (op.deltaDebt.amount, op.deltaCollateral.amount)
  | some (_, o) => (o.debt + op.deltaDebt.amount, o.collateral + op.deltaCollateral.amount)

/-- The other positions in the asset are priced at the present ratio, and the new call price is not
rounded; or there are no other positions. -/
def Books.PricesAnew (s : Books) (op : CallOrderUpdate) (b : BitassetData) : Prop :=
  let own := s.findCall op.fundingAccount op.deltaDebt.assetId
  let others := fun i o => s.callOrders.lookup i = some o ∧ o.debtType = op.deltaDebt.assetId ∧
    own ≠ some (i, o)
  (∀ i o, ¬ others i o) ∨
    (∀ i o, others i o → o.PricedAt b.currentFeed.maintenanceCollateralRatio) ∧
      Unrounded (exactCallPrice (op.amounts own).1 (op.amounts own).2
        b.currentFeed.maintenanceCollateralRatio)

/-- A position that is empty is priced at any ratio. -/
theorem CallOrder.pricedAt_of_empty {o : CallOrder} (hdebt : o.debt = 0) (hcollateral : o.collateral = 0)
    (m : ℚ) : o.PricedAt m := by
  unfold PricedAt
  rw [hdebt, hcollateral]
  push_cast
  ring

theorem Books.PricedAlike.position {op : CallOrderUpdate} {b : BitassetData} {id : ℕ}
    (hC : s.PricesAnew op b) (h : op.position b s = .ok id s')
    (hend : ∀ o, s'.callOrders.lookup id = some o →
      o.debt = 0 ∧ o.collateral = 0 ∨ 0 < o.debt ∧ 0 < o.collateral)
    (hs : ∀ k, s.PricedAlike k) (k : ℕ) : s'.PricedAlike k := by
  -- the position as it is left, and the other ones
  obtain ⟨o, hlookup, htype, hown, hprice⟩ : ∃ o : CallOrder,
      (∀ i, s'.callOrders.lookup i = if i = id then some o else s.callOrders.lookup i) ∧
      o.debtType = op.deltaDebt.assetId ∧
      (∀ i p, i ≠ id → s.findCall op.fundingAccount op.deltaDebt.assetId ≠ some (i, p)) ∧
      (Unrounded (exactCallPrice
          (op.amounts (s.findCall op.fundingAccount op.deltaDebt.assetId)).1
          (op.amounts (s.findCall op.fundingAccount op.deltaDebt.assetId)).2
          b.currentFeed.maintenanceCollateralRatio) →
        0 < o.debt → o.PricedAt b.currentFeed.maintenanceCollateralRatio) := by
    obtain ⟨s₁, -, ⟨hnone, price, hprice, rfl, rfl⟩ | ⟨o, changed, hfound, hchanged, rfl⟩⟩ :=
      CallOrderUpdate.position_ok h
    · refine ⟨_, Index.lookup_create _ _, (Price.callPrice_assets hprice).2, ?_, ?_⟩
      · rintro i p - hfound
        rw [hnone] at hfound
        cases hfound
      · intro hsmall _
        rw [hnone] at hsmall
        exact Price.callPrice_exact hsmall hprice
    · obtain ⟨ho, htype⟩ := Books.findCall_ok hfound
      refine ⟨changed, ?_, ?_, ?_, ?_⟩
      · intro i
        change (s.callOrders.modify id _).lookup i = _
        rw [Index.lookup_modify, ho, Option.map_some]
      · rcases CallOrderUpdate.priced_cases hchanged with ⟨-, price, hprice, rfl⟩ | ⟨-, rfl⟩
        · exact (Price.callPrice_assets hprice).2.trans htype
        · exact htype
      · rintro i p hi hfound'
        rw [hfound] at hfound'
        cases hfound'
        exact hi rfl
      · intro hsmall hpos
        rw [hfound] at hsmall
        rcases CallOrderUpdate.priced_cases hchanged with ⟨-, price, hprice, rfl⟩ | ⟨hdebt, rfl⟩
        · exact Price.callPrice_exact hsmall hprice
        · exact absurd hpos hdebt
  have hothers : ∀ i o', i ≠ id → s'.callOrders.lookup i = some o' → s.callOrders.lookup i = some o' := by
    intro i o' hi ho'
    rwa [hlookup, if_neg hi] at ho'
  by_cases hk : k = op.deltaDebt.assetId
  · rcases hC with hnone | ⟨hpriced, hsmall⟩
    · -- no other position in the asset
      refine .inl ?_
      have honly : ∀ i o', s'.callOrders.lookup i = some o' → o'.debtType = k → i = id := by
        intro i o' ho' htype'
        by_contra hi
        exact hnone i o' ⟨hothers i o' hi ho', htype'.trans hk, hown i o' hi⟩
      intro i j p p' hp hp' hptype hptype'
      rw [honly i p hp hptype, honly j p' hp' hptype']
    · refine .inr ⟨b.currentFeed.maintenanceCollateralRatio, ?_⟩
      intro i o' ho' htype'
      by_cases hi : i = id
      · rw [hlookup, if_pos hi] at ho'
        cases ho'
        rcases hend o (by rw [hlookup, if_pos rfl]) with ⟨hdebt, hcollateral⟩ | ⟨hpos, -⟩
        · exact CallOrder.pricedAt_of_empty hdebt hcollateral _
        · exact hprice hsmall hpos
      · exact hpriced i o' ⟨hothers i o' hi ho', htype'.trans hk, hown i o' hi⟩
  · refine (hs k).keep fun i o' ho' htype' => ?_
    by_cases hi : i = id
    · rw [hlookup, if_pos hi] at ho'
      cases ho'
      exact absurd (htype'.symm.trans htype) hk
    · exact hothers i o' hi ho'

end Keep

/-! ### Runs -/

/-- The action keeps the positions of every asset at one ratio. -/
def Action.KeepsPrices (s : Books) : Action → Prop
  | fillCall id pays receives => s.FillsAlike id pays receives
  | position op b => s.PricesAnew op b
  | _ => True

/-- **One action keeps positions priced alike.** -/
theorem Does.pricedAlike {S : Settings} {a : Action} {s s' : Books} (hC : a.KeepsPrices s)
    (h : Does S a s s') (hs : ∀ k, s.PricedAlike k) (k : ℕ) : s'.PricedAlike k := by
  rcases h.callOrders with hsame | ⟨id, pays, receives, rfl⟩ | ⟨op, b, rfl⟩ | ⟨id, rfl⟩
  · refine (hs k).keep fun i o ho _ => ?_
    rwa [hsame] at ho
  · cases h with
    | fillCall h => exact Books.PricedAlike.fill hC h hs k
  · cases h with
    | position _ _ h hend => exact Books.PricedAlike.position hC h hend hs k
  · cases h with
    | close =>
      refine (hs k).keep fun i o ho _ => ?_
      change (s.callOrders.erase id).lookup i = _ at ho
      rw [Index.lookup_erase] at ho
      split at ho
      · cases ho
      · exact ho

/-- **The first call order is the least collateralized** in every run whose actions keep the positions
of an asset at one ratio. -/
theorem first_is_least {S : Settings} {s₀ s : Books} (hgenesis : Genesis s₀)
    (hpriced : ∀ k, s₀.PricedAlike k) (h : Traced S (fun s a => a.KeepsPrices s) s₀ s) (k : ℕ) :
    s.FirstIsLeast k := by
  have hs := (h.regular hgenesis).1.toSound
  have halike : ∀ k, s.PricedAlike k := by
    refine h.keep (I := fun s => ∀ k, s.PricedAlike k) (fun hC hdoes hs => hdoes.pricedAlike hC hs) ?_
      hpriced
    intro s s' hquiet hs k
    refine (hs k).keep fun i o ho _ => ?_
    rwa [hquiet.callOrders] at ho
  exact (halike k).firstIsLeast hs

section Example

/-- Without limit orders there are no margin calls. -/
private theorem checkCallOrders_unmatched {mia : ℕ} {called : Bool} {s s' : Books}
    (hlimits : ∀ i, s.limitOrders.lookup i = none)
    (h : checkCallOrders mia false s = .ok called s') : s' = s := by
  have hswan : ∀ {settled s₁}, checkForBlackswan mia false s = .ok settled s₁ → s₁ = s := by
    intro settled s₁ hcheck
    unfold checkForBlackswan at hcheck
    rw [get_bind] at hcheck
    cases hb : s.bitassets.lookup mia with
    | none =>
      rw [hb] at hcheck
      exact (pure_eq_ok.mp hcheck).2.symm
    | some b =>
    rw [hb] at hcheck
    simp only at hcheck
    split at hcheck
    · exact (pure_eq_ok.mp hcheck).2.symm
    split at hcheck
    · exact (pure_eq_ok.mp hcheck).2.symm
    obtain ⟨swan, -, hcheck⟩ := lift_bind_eq_ok.mp hcheck
    cases swan with
    | none => exact (pure_eq_ok.mp hcheck).2.symm
    | some price =>
      obtain ⟨henable, -⟩ := assert_bind_eq_ok.mp hcheck
      cases henable
  have hnone : ∀ highest lowest, s.limitsBetween highest lowest = [] := by
    intro highest lowest
    rw [List.eq_nil_iff_forall_not_mem]
    intro e he
    have hmem := List.mem_of_mem_filter ((List.mem_insertionSort _).mp he)
    have hlookup := Index.lookup_of_mem_entries hmem
    rw [hlimits] at hlookup
    cases hlookup
  unfold checkCallOrders at h
  rw [get_bind] at h
  cases hb : s.bitassets.lookup mia with
  | none =>
    rw [hb] at h
    exact (pure_eq_ok.mp h).2.symm
  | some b =>
  rw [hb] at h
  simp only at h
  obtain ⟨settled, s₁, hcheck, h⟩ := bind_eq_ok.mp h
  rw [hswan hcheck] at h
  split at h
  · exact (pure_eq_ok.mp h).2.symm
  unfold callMargins at h
  split at h
  · exact (pure_eq_ok.mp h).2.symm
  rw [get_bind] at h
  obtain ⟨⟨calls, limits⟩, hmargins, h⟩ := lift_bind_eq_ok.mp h
  have hempty : limits = [] := by
    unfold Books.marginCalls at hmargins
    obtain ⟨maxPrice, -, hmargins⟩ := except_bind_eq_ok.mp hmargins
    obtain ⟨minPrice, -, hmargins⟩ := except_bind_eq_ok.mp hmargins
    obtain ⟨calls', -, hmargins⟩ := except_bind_eq_ok.mp hmargins
    rw [hnone] at hmargins
    cases hmargins
    rfl
  rw [hempty] at h
  exact (pure_eq_ok.mp h).2.symm

/-- Opening or changing a position is one action, when there are no limit orders. -/
private theorem actions_unmatched {S : Settings} {op : CallOrderUpdate} {s s' : Books} (hs : Sound s)
    (hlimits : ∀ i, s.limitOrders.lookup i = none)
    (hC : ∀ (s₁ : Books) (b : BitassetData), s₁.callOrders = s.callOrders → s.bitassets.lookup op.deltaDebt.assetId = some b →
      s₁.PricesAnew op b)
    (h : (Event.operation (.callOrderUpdate op)).run S s = .ok () s') :
    Actions S (fun s a => a.KeepsPrices s) s s' := by
  obtain ⟨-, h⟩ := assert_bind_eq_ok.mp h
  obtain ⟨f, b, t, s₁, s₂, s₃, -, hevaluate, hconvert, hpay, happly, hfee⟩ := Evaluator.run_ok h
  obtain ⟨rfl, hb, -, hbacking⟩ := CallOrderUpdate.doEvaluate_ok hevaluate
  have hquiet : Quiet t s₂ :=
    quietFrame.trans (quiet_convertFee _ _ _ _ _ hconvert) (quiet_payFee _ _ _ _ _ hpay)
  refine .step (.quiet hquiet) trivial ?_
  obtain ⟨_, t₁, hdebt, happly⟩ := bind_eq_ok.mp happly
  obtain ⟨_, t₂, hcollateral, happly⟩ := bind_eq_ok.mp happly
  rw [get_bind] at happly
  obtain ⟨id, t₃, hchange, happly⟩ := bind_eq_ok.mp happly
  have hposition : op.position b s₂ = .ok id t₃ := by
    refine bind_eq_ok.mpr ⟨_, t₁, hdebt, bind_eq_ok.mpr ⟨_, t₂, hcollateral, ?_⟩⟩
    rw [get_bind]
    exact hchange
  have hb₂ : s₂.bitassets.lookup op.deltaDebt.assetId = some b := by
    rw [hquiet.bitassets]
    exact hb
  have hbacking₂ : ∀ i o, s₂.findCall op.fundingAccount op.deltaDebt.assetId = some (i, o) →
      o.callPrice.base.assetId = op.deltaCollateral.assetId := by
    intro i o ho
    obtain ⟨ho, htype⟩ := Books.findCall_ok ho
    rw [hquiet.callOrders] at ho
    obtain ⟨b', hb', -, hbase⟩ := (hs.calls i o ho).2
    rw [htype, hb] at hb'
    cases hb'
    rw [← hbase, hbacking]
  have hlimits₃ : ∀ i, t₃.limitOrders.lookup i = none := by
    obtain ⟨u, htracks, ⟨-, price, -, -, rfl⟩ | ⟨o, changed, -, -, rfl⟩⟩ :=
      CallOrderUpdate.position_ok hposition
    all_goals
      intro i
      change u.limitOrders.lookup i = none
      rw [htracks.limitOrders, hquiet.limitOrders]
      exact hlimits i
  have hend := (CallOrderUpdate.actions_closeOrCheck (S := S) happly).2
  refine .step (.position hb₂ hbacking₂ hposition hend) (hC s₂ b hquiet.callOrders hb) ?_
  refine Actions.trans ?_ (.single (.quiet (quiet_adjustBalance _ _ _ _ _ hfee)) trivial)
  unfold CallOrderUpdate.closeOrCheck at happly
  rw [get_bind] at happly
  obtain ⟨order, horder, happly⟩ := require_bind_eq_ok.mp happly
  split at happly
  · next hzero =>
    obtain ⟨hnone, happly⟩ := assert_bind_eq_ok.mp happly
    obtain rfl := update_eq_ok.mp happly
    exact .single (.close horder hzero hnone) trivial
  · obtain ⟨-, happly⟩ := assert_bind_eq_ok.mp happly
    split at happly
    · obtain ⟨-, rfl⟩ := pure_eq_ok.mp happly
      exact .refl _
    · obtain ⟨called, t₄, hcalled, hlast⟩ := bind_eq_ok.mp happly
      have hsame : t₄ = t₃ := checkCallOrders_unmatched hlimits₃ hcalled
      rw [hsame, get_bind] at hlast
      split at hlast
      · obtain ⟨-, rfl⟩ := assert_eq_ok.mp hlast
        exact .refl _
      · obtain ⟨o, -, hlast⟩ := require_bind_eq_ok.mp hlast
        obtain ⟨-, rfl⟩ := assert_eq_ok.mp hlast
        exact .refl _

/-- With one position, an event that does not update it keeps prices alike. -/
private theorem actions_single {S : Settings} {e : Event} {id : ℕ} {s s' : Books} (hs : Sound s)
    (hone : ∀ i o, s.callOrders.lookup i = some o → i = id)
    (hother : ∀ op, e ≠ .operation (.callOrderUpdate op)) (h : e.run S s = .ok () s') :
    Actions S (fun s a => a.KeepsPrices s) s s' := by
  refine (Event.actions hs h).strengthen
    (I := fun s => ∀ i o, s.callOrders.lookup i = some o → i = id) ?_ hone
  intro s a s' hof hdoes hs
  rcases hdoes.callOrders with hsame | ⟨j, pays, receives, rfl⟩ | ⟨op, b, rfl⟩ | ⟨j, rfl⟩
  · refine ⟨?_, ?_⟩
    · cases hdoes with
      | fillCall =>
        intro o ho
        refine .inr (.inr fun i o' ho' _ => ?_)
        rw [hs i o' ho', hs _ o ho]
      | position => exact absurd hof (hother _)
      | quiet | place | cancel | fillLimit | close | bitasset | newBitasset | lock => trivial
    · intro i o ho
      rw [hsame] at ho
      exact hs i o ho
  · cases hdoes with
    | fillCall h =>
      obtain ⟨o, ho, -, hcalls⟩ := fillCallOrder_calls h
      refine ⟨?_, ?_⟩
      · intro o ho
        refine .inr (.inr fun i o' ho' _ => ?_)
        rw [hs i o' ho', hs _ o ho]
      · intro i o' ho'
        rw [hcalls] at ho'
        split at ho'
        · rw [Index.lookup_erase] at ho'
          split at ho'
          · cases ho'
          · exact hs i o' ho'
        · rw [Index.lookup_modify] at ho'
          split at ho'
          · next hi => rw [hi, hs _ o ho]
          · exact hs i o' ho'
  · exact absurd hof (hother op)
  · obtain ⟨op, hop⟩ := hof
    exact absurd hop (hother op)

theorem fits_moreCollateral : FitsShare 4100 := by decide

/-- The second account borrows 1000 of the bitasset for 4100. -/
private def borrowMore : CallOrderUpdate where
  fee := ⟨20, core⟩
  fundingAccount := 11
  deltaCollateral := ⟨4100, core⟩
  deltaDebt := ⟨1000, 1⟩
  deltaCollateral_fits := fits_moreCollateral
  deltaDebt_fits := fitsShare_thousand

private theorem single_smallChain (es : List Event)
    (h : ∀ e ∈ (afterEvents es).callOrders.table.entries, e.1 = 0) (i : ℕ) (o : CallOrder)
    (ho : (afterEvents es).callOrders.lookup i = some o) : i = 0 :=
  Table.forall_of_entries (P := fun i _ => i = 0) h i o ho

theorem pricedAlike_smallChain (k : ℕ) : smallChain.PricedAlike k := by
  refine .inl fun i j o o' ho ho' _ _ => ?_
  rw [single_smallChain [] (by decide) i o ho, single_smallChain [] (by decide) j o' ho']

/-- A second position is opened at the ratio of the first one. -/
theorem first_is_least_borrowed :
    (afterEvents [.operation (.callOrderUpdate borrowMore), publishPrice, setProducer]).FirstIsLeast 1 ∧
      (afterEvents [.operation (.callOrderUpdate borrowMore), publishPrice,
        setProducer]).callOrders.entries.length = 2 := by
  have h₁ : Traced smallSettings (fun s a => a.KeepsPrices s) smallChain (afterEvents [setProducer]) := by
    have hrun := run_afterEvents [] (e := setProducer) (by decide +kernel)
    refine (Traced.refl smallChain).event hrun ?_ (fits_afterEvents (by decide +kernel) (by decide +kernel))
    exact actions_single genesis_smallChain.solvent.toSound (single_smallChain [] (by decide +kernel))
      (fun op hop => by cases hop) hrun
  have h₂ : Traced smallSettings (fun s a => a.KeepsPrices s) smallChain
      (afterEvents [publishPrice, setProducer]) := by
    have hrun := run_afterEvents [setProducer] (e := publishPrice) (by decide +kernel)
    refine h₁.event hrun ?_ (fits_afterEvents (by decide +kernel) (by decide +kernel))
    exact actions_single (h₁.regular genesis_smallChain).1.toSound
      (single_smallChain [setProducer] (by decide +kernel)) (fun op hop => by cases hop) hrun
  have h₃ : Traced smallSettings (fun s a => a.KeepsPrices s) smallChain
      (afterEvents [.operation (.callOrderUpdate borrowMore), publishPrice, setProducer]) := by
    have hrun := run_afterEvents [publishPrice, setProducer]
      (e := .operation (.callOrderUpdate borrowMore)) (by decide +kernel)
    refine h₂.event hrun ?_ (fits_afterEvents (by decide +kernel) (by decide +kernel))
    refine actions_unmatched (h₂.regular genesis_smallChain).1.toSound ?_ ?_ hrun
    · exact fun i => by
        rw [show (afterEvents [publishPrice, setProducer]).limitOrders = .empty by rfl]
        rfl
    · intro s₁ b hcalls hb
      have hratio : (afterEvents [publishPrice, setProducer]).bitassets.lookup 1 |>.map (fun b =>
          b.currentFeed.maintenanceCollateralRatio) |> (· = some 1750) := by decide +kernel
      have hm : b.currentFeed.maintenanceCollateralRatio = 1750 := by
        rw [show (afterEvents [publishPrice, setProducer]).bitassets.lookup 1 = some b from hb] at hratio
        exact Option.some.inj hratio
      refine .inr ⟨?_, ?_⟩
      · rintro i o ⟨ho, -, -⟩
        rw [hm]
        rw [hcalls] at ho
        have hpriced : ∀ e ∈ (afterEvents [publishPrice, setProducer]).callOrders.table.entries,
            e.2.callPrice.quote.amount * (e.2.collateral * 1000) =
              e.2.callPrice.base.amount * (e.2.debt * 1750) := by decide +kernel
        have hpriced' := Table.forall_of_entries
          (P := fun _ (o : CallOrder) => o.callPrice.quote.amount * (o.collateral * 1000) =
            o.callPrice.base.amount * (o.debt * 1750)) hpriced i o ho
        unfold CallOrder.PricedAt
        exact_mod_cast hpriced'
      · have hown : s₁.findCall borrowMore.fundingAccount borrowMore.deltaDebt.assetId = none := by
          unfold Books.findCall
          rw [hcalls]
          decide +kernel
        rw [hown, hm]
        unfold Unrounded
        decide +kernel
  exact ⟨first_is_least genesis_smallChain pricedAlike_smallChain h₃ 1, by decide +kernel⟩

/-- The first account has 300 of the bitasset settled. -/
private def settlePart : Event := .operation (.assetSettle
  { fee := ⟨20, core⟩, account := 10, amount := ⟨300, 1⟩ })

/-- The events, the last one first: a day after the settlement was asked for, it is made. -/
private def settledRun : List Event :=
  [.clearExpiredOrders, .block 1500086400, settlePart, .operation (.callOrderUpdate borrowMore),
    publishPrice, setProducer]

/-- The position that was settled in part is better collateralized than the other one now, and it is
still the first one. -/
theorem not_first_is_least :
    ¬ ∀ (S : Settings) (s₀ s : Books), Genesis s₀ → (∀ k, s₀.PricedAlike k) →
      Traced S (fun _ _ => True) s₀ s → ∀ k, s.FirstIsLeast k := by
  intro hall
  have htraced : Traced smallSettings (fun _ _ => True) smallChain (afterEvents settledRun) := by
    refine ((((((Traced.refl smallChain).afterEvents ?_ ?_).afterEvents ?_ ?_).afterEvents ?_
      ?_).afterEvents ?_ ?_).afterEvents ?_ ?_).afterEvents ?_ ?_
    all_goals first
      | decide +kernel
      | exact fits_afterEvents (by decide +kernel) (by decide +kernel)
  have hleast := hall smallSettings smallChain _ genesis_smallChain pricedAlike_smallChain htraced 1
  have hb : ((afterEvents settledRun).bitassets.lookup 1).map (fun b =>
      (b.hasSettlement, b.shortBackingAsset)) = some (false, core) := by decide +kernel
  have hother : ((afterEvents settledRun).callOrders.lookup 1).map (fun o =>
      (o.debtType, o.collateral, o.debt)) = some (1, 4100, 1000) := by decide +kernel
  have hcalls : ((afterEvents settledRun).callsOf core 1).toOption.map (fun calls =>
      calls.head?.map fun e => (e.2.collateral, e.2.debt)) = some (some (3400, 700)) := by decide +kernel
  obtain ⟨b, hb, hbdata⟩ := Option.map_eq_some_iff.mp hb
  obtain ⟨o, ho, hodata⟩ := Option.map_eq_some_iff.mp hother
  obtain ⟨calls, hcalls, hhead⟩ := Option.map_eq_some_iff.mp hcalls
  have hcalls' : (afterEvents settledRun).callsOf b.shortBackingAsset 1 = .ok calls := by
    rw [show b.shortBackingAsset = core from congrArg Prod.snd hbdata]
    cases hc : (afterEvents settledRun).callsOf core 1 with
    | ok c =>
      rw [hc] at hcalls
      cases hcalls
      rfl
    | error e =>
      rw [hc] at hcalls
      cases hcalls
  obtain ⟨first, hfirst, -, -, hle⟩ := hleast b calls hb (congrArg Prod.fst hbdata) hcalls' 1 o ho
    (congrArg Prod.fst hodata)
  rw [hfirst] at hhead
  have hfirstData : (first.2.collateral, first.2.debt) = (3400, 700) := Option.some.inj hhead
  rw [show first.2.collateral = 3400 from congrArg Prod.fst hfirstData,
    show first.2.debt = 700 from congrArg Prod.snd hfirstData,
    show o.collateral = 4100 from congrArg (fun x => x.2.1) hodata,
    show o.debt = 1000 from congrArg (fun x => x.2.2) hodata] at hle
  exact absurd hle (by decide)

end Example

end FinChain.Ledger
