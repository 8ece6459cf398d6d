import FinChain.Ledger.CallPrices
import FinChain.Ledger.FairFills
import Mathlib.Data.Prod.Lex

/-!
# Whether margin calls are exhaustive

`check_call_orders` goes through the call orders by call price and through the limit orders in the
short-squeeze range by price, and a round of its loop uses up at least one of the two orders at its head.
When the loop ends, no call order is left, or no limit order in range is left, or the first call order is
not called at the price of the best limit order (`Books.Spent`); then a second run of the function finds
such orders at the heads, and changes nothing (`checkCallOrders_of_spent`).

That is so only if an order that is passed over is gone. The loop passes over a limit order after each
round in which `filled_limit` is set, and the variable is set for good by the first round that fills a
limit order. From then on a limit order of which something is left is passed over as well
(`Note.Skips`). In a run without such a round margin calls are exhaustive (`margin_calls_exhausted`).

The loop looks at the best limit order only. If that one is above the call price, the loop stops, and a
worse one may be inside the call price (`Books.OffersReach` excludes it).
-/

namespace FinChain.Ledger

open Exec History

/-! ### Prices -/

/-- Both amounts of a price are positive, and of type `share_type`. -/
structure Price.Positive (p : Price) : Prop where
  base_pos : 0 < p.base.amount
  base_lt : p.base.amount < 2 ^ 63
  quote_pos : 0 < p.quote.amount
  quote_lt : p.quote.amount < 2 ^ 63

theorem Price.InRange.positive {p : Price} (h : p.InRange) : p.Positive := by
  have hmax : maxShareSupply < 2 ^ 63 := by decide
  obtain ⟨⟨hbase, hbase'⟩, hquote, hquote'⟩ := h
  exact ⟨hbase, hbase'.trans_lt hmax, hquote, hquote'.trans_lt hmax⟩

theorem LimitOrder.Sound.positive {o : LimitOrder} (h : o.Sound) : o.sellPrice.Positive :=
  ⟨h.base_pos, h.base_lt, h.quote_pos, h.quote_lt⟩

/-- What the operators of `price` compare: the assets first, then the numbers. -/
def Price.rank (p : Price) : ℕ ×ₗ ℕ ×ₗ ℚ :=
  toLex (p.base.assetId, toLex (p.quote.assetId, p.value))

namespace Price.Positive

variable {a b : Price}

theorem inv (h : a.Positive) : a.inv.Positive := ⟨h.quote_pos, h.quote_lt, h.base_pos, h.base_lt⟩

theorem value_pos (h : a.Positive) : 0 < a.value := by
  have hbase : (0 : ℚ) < a.base.amount := by exact_mod_cast h.base_pos
  have hquote : (0 : ℚ) < a.quote.amount := by exact_mod_cast h.quote_pos
  exact div_pos hbase hquote

/-- The cross products decide as the numbers do. -/
theorem cross_lt_iff (ha : a.Positive) (hb : b.Positive) : a.cross b < b.cross a ↔ a.value < b.value := by
  have hsmall : ∀ {x : ℤ}, x < 2 ^ 63 → x < 2 ^ 64 := fun hx => hx.trans (by decide)
  have haq : (0 : ℚ) < a.quote.amount := by exact_mod_cast ha.quote_pos
  have hbq : (0 : ℚ) < b.quote.amount := by exact_mod_cast hb.quote_pos
  rw [Price.cross_eq ha.quote_pos.le (hsmall ha.quote_lt) hb.base_pos.le (hsmall hb.base_lt),
    Price.cross_eq hb.quote_pos.le (hsmall hb.quote_lt) ha.base_pos.le (hsmall ha.base_lt)]
  unfold value
  rw [div_lt_div_iff₀ haq hbq]
  have hcast : (b.quote.amount * a.base.amount < a.quote.amount * b.base.amount) ↔
      (b.quote.amount * a.base.amount : ℚ) < a.quote.amount * b.base.amount := by
    exact_mod_cast Iff.rfl
  rw [hcast, mul_comm (b.quote.amount : ℚ), mul_comm (a.quote.amount : ℚ)]

/-- **`operator <`** of positive prices compares their ranks. -/
theorem lt_iff (ha : a.Positive) (hb : b.Positive) : a.lt b = true ↔ a.rank < b.rank := by
  unfold rank
  rw [Prod.Lex.toLex_lt_toLex, Prod.Lex.toLex_lt_toLex]
  unfold lt
  by_cases hbase : a.base.assetId = b.base.assetId
  · rw [if_neg (not_not.mpr hbase)]
    by_cases hquote : a.quote.assetId = b.quote.assetId
    · rw [if_neg (not_not.mpr hquote), decide_eq_true_iff, ha.cross_lt_iff hb]
      simp only [hbase, hquote, lt_irrefl, true_and, false_or]
    · rw [if_pos hquote, decide_eq_true_iff]
      simp only [hbase, hquote, lt_irrefl, true_and, false_and, false_or, or_false]
  · rw [if_pos hbase, decide_eq_true_iff]
    simp only [hbase, false_and, or_false]

theorem eq_iff (ha : a.Positive) (hb : b.Positive) : a.eq b = true ↔ a.rank = b.rank := by
  have hvalue : a.cross b = b.cross a ↔ a.value = b.value := by
    rw [le_antisymm_iff, le_antisymm_iff (a := a.value), ← not_lt, ← not_lt, ← not_lt (a := b.value),
      ← not_lt (a := a.value), ha.cross_lt_iff hb, hb.cross_lt_iff ha]
  unfold eq rank
  rw [decide_eq_true_iff, hvalue, toLex_inj, Prod.mk.injEq, toLex_inj, Prod.mk.injEq]

/-- **`operator >`** of positive prices compares their ranks. -/
theorem gt_iff (ha : a.Positive) (hb : b.Positive) : a.gt b = true ↔ b.rank < a.rank := by
  unfold gt le
  rw [Bool.not_eq_true', Bool.or_eq_false_iff, ← Bool.not_eq_true, ← Bool.not_eq_true, ha.eq_iff hb,
    ha.lt_iff hb, ← not_or, ← le_iff_eq_or_lt, not_le]

end Price.Positive

/-- Of two prices in the same assets, the inverse of the higher one is the lower one. -/
theorem Price.inv_rank_le {a b : Price} (ha : a.Positive) (hbase : a.base.assetId = b.base.assetId)
    (hquote : a.quote.assetId = b.quote.assetId) (h : a.rank ≤ b.rank) : b.inv.rank ≤ a.inv.rank := by
  have hinv : ∀ p : Price, p.inv.value = p.value⁻¹ := fun p => (inv_div _ _).symm
  unfold rank at h ⊢
  rw [Prod.Lex.toLex_le_toLex, Prod.Lex.toLex_le_toLex] at h ⊢
  have hvalue : a.value ≤ b.value := by
    rcases h with hlt | ⟨-, hlt | ⟨-, hle⟩⟩
    · exact absurd hbase hlt.ne
    · exact absurd hquote hlt.ne
    · exact hle
  refine .inr ⟨hquote.symm, .inr ⟨hbase.symm, ?_⟩⟩
  rw [hinv, hinv]
  exact inv_anti₀ ha.value_pos hvalue

/-! ### What is left to call -/

/-- A limit order in the short-squeeze range of a bitasset. -/
def BitassetData.Squeezes (b : BitassetData) (mia : ℕ) (o : LimitOrder) : Prop :=
  ∃ highest lowest, Price.max mia b.shortBackingAsset = .ok highest ∧
    b.currentFeed.maxShortSqueezePrice = .ok lowest ∧ o.sellPrice.gt highest = false ∧
    lowest.gt o.sellPrice = false

/-- The bitasset has a feed, with a settlement price that is not null. -/
structure BitassetData.HasFeed (b : BitassetData) : Prop where
  positive : b.currentFeed.settlementPrice.Positive
  present : b.currentFeed.settlementPrice.isNull = false

/-- The call price of the order is reached by the feed. -/
def BitassetData.Reaches (b : BitassetData) (call : CallOrder) : Prop :=
  b.currentFeed.settlementPrice.gt call.callPrice.inv = false

/-- The limit order is at the call price of the call order, or inside it. -/
def LimitOrder.Reaches (limit : LimitOrder) (call : CallOrder) : Prop :=
  limit.sellPrice.gt call.callPrice.inv = false

/-- **Margin calls are exhausted**: no call order that is reached by the feed and no limit order in the
short-squeeze range that is at its call price or inside it are left. -/
def Books.Exhausted (s : Books) (mia : ℕ) (b : BitassetData) : Prop :=
  ∀ i j call limit, s.callOrders.lookup i = some call → call.debtType = mia → b.Reaches call →
    s.limitOrders.lookup j = some limit → b.Squeezes mia limit → ¬ limit.Reaches call

/-- No limit order in range is above the call price of a call order that the feed reaches. -/
def Books.OffersReach (s : Books) (mia : ℕ) (b : BitassetData) : Prop :=
  ∀ i j call limit, s.callOrders.lookup i = some call → call.debtType = mia → b.Reaches call →
    s.limitOrders.lookup j = some limit → b.Squeezes mia limit → limit.Reaches call

/-- What makes the loop stop at two orders. -/
def BitassetData.Uncalled (b : BitassetData) (headTime : ℕ) (call : CallOrder) (limit : LimitOrder) :
    Prop :=
  ((b.currentFeed.settlementPrice.gt call.callPrice.inv && decide (hardfork436Time < headTime)) ||
    limit.sellPrice.gt call.callPrice.inv) = true

/-- What a run leaves: no call orders, or no limit orders in range, or a call order with the lowest call
price that is not called for some limit order. -/
inductive Books.Spent (s : Books) (mia : ℕ) (b : BitassetData) : Prop
  | noCalls (h : ∀ i o, s.callOrders.lookup i = some o → o.debtType ≠ mia)
  | noLimits (h : ∀ j o, s.limitOrders.lookup j = some o → ¬ b.Squeezes mia o)
  | uncalled {i j : ℕ} {call : CallOrder} {limit : LimitOrder} (hcall : s.callOrders.lookup i = some call)
      (htype : call.debtType = mia)
      (hleast : ∀ i' call', s.callOrders.lookup i' = some call' → call'.debtType = mia →
        call.callPrice.rank ≤ call'.callPrice.rank)
      (hlimit : s.limitOrders.lookup j = some limit) (hrange : b.Squeezes mia limit)
      (h : b.Uncalled s.headTime call limit)

section Spent

variable {s : Books} {mia : ℕ} {b : BitassetData}

/-- All call orders of a bitasset are in the same assets. -/
theorem Sound.callPrice_assets (hs : Sound s) (hb : s.bitassets.lookup mia = some b) {i : ℕ}
    {o : CallOrder} (ho : s.callOrders.lookup i = some o) (htype : o.debtType = mia) :
    o.callPrice.base.assetId = b.shortBackingAsset := by
  obtain ⟨b', hb', -, hbacking⟩ := (hs.calls i o ho).2
  rw [htype, hb] at hb'
  cases hb'
  exact hbacking.symm

/-- The feed that does not reach a call order does not reach one with a higher call price. -/
theorem Books.not_reaches_of_le {i i' : ℕ} {call call' : CallOrder} (hs : Sound s)
    (hb : s.bitassets.lookup mia = some b) {p : Price} (hp : p.Positive)
    (hcall : s.callOrders.lookup i = some call) (htype : call.debtType = mia)
    (hcall' : s.callOrders.lookup i' = some call') (htype' : call'.debtType = mia)
    (hle : call.callPrice.rank ≤ call'.callPrice.rank) (h : p.gt call.callPrice.inv = true) :
    p.gt call'.callPrice.inv = true := by
  have hpos := (hs.calls i call hcall).1.inRange.positive
  have hpos' := (hs.calls i' call' hcall').1.inRange.positive
  have hinv : call'.callPrice.inv.rank ≤ call.callPrice.inv.rank := by
    refine Price.inv_rank_le hpos ?_ (htype.trans htype'.symm) hle
    rw [hs.callPrice_assets hb hcall htype, hs.callPrice_assets hb hcall' htype']
  rw [hp.gt_iff hpos.inv] at h
  rw [hp.gt_iff hpos'.inv]
  exact hinv.trans_lt h

/-- **What is spent is exhausted**, if the feed decides. -/
theorem Books.Spent.exhausted (hs : Sound s) (hb : s.bitassets.lookup mia = some b)
    (hfeed : b.currentFeed.settlementPrice.Positive) (hoffers : s.OffersReach mia b)
    (h : s.Spent mia b) : s.Exhausted mia b := by
  intro i' j' call' limit' hcall' htype' hreached hlimit' hrange' hinside
  cases h with
  | noCalls hnone => exact hnone i' call' hcall' htype'
  | noLimits hnone => exact hnone j' limit' hlimit' hrange'
  | @uncalled i j call limit hcall htype hleast hlimit hrange hstop =>
    have hprotected : b.currentFeed.settlementPrice.gt call.callPrice.inv = true := by
      by_contra hreaches
      rw [Bool.not_eq_true] at hreaches
      have hreach := hoffers i j call limit hcall htype hreaches hlimit hrange
      unfold BitassetData.Uncalled at hstop
      rw [hreaches, show limit.sellPrice.gt call.callPrice.inv = false from hreach] at hstop
      cases hstop
    have hprotected' := Books.not_reaches_of_le hs hb hfeed hcall htype hcall' htype'
      (hleast i' call' hcall' htype') hprotected
    rw [show b.currentFeed.settlementPrice.gt call'.callPrice.inv = false from hreached] at hprotected'
    cases hprotected'

/-- The lists of a run contain the orders of the bitasset and the limit orders in range. -/
theorem Books.marginCalls_ok {calls : List (ℕ × CallOrder)} {limits : List (ℕ × LimitOrder)}
    (h : s.marginCalls mia b = .ok (calls, limits)) :
    s.callsOf b.shortBackingAsset mia = .ok calls ∧
      ∀ j o, (j, o) ∈ limits ↔ s.limitOrders.lookup j = some o ∧ b.Squeezes mia o := by
  unfold marginCalls at h
  obtain ⟨highest, hhighest, h₁⟩ := except_bind_eq_ok.mp h
  obtain ⟨lowest, hlowest, h₂⟩ := except_bind_eq_ok.mp h₁
  obtain ⟨calls', hcalls, h₃⟩ := except_bind_eq_ok.mp h₂
  cases h₃
  refine ⟨hcalls, fun j o => ?_⟩
  rw [limitsBetween, List.mem_insertionSort, List.mem_filter, Bool.and_eq_true, Bool.not_eq_true',
    Bool.not_eq_true']
  constructor
  · rintro ⟨hmem, hhigh, hlow⟩
    exact ⟨Index.lookup_of_mem_entries hmem, highest, lowest, hhighest, hlowest, hhigh, hlow⟩
  · rintro ⟨hlookup, highest', lowest', hhighest', hlowest', hhigh, hlow⟩
    rw [hhighest] at hhighest'
    rw [hlowest] at hlowest'
    cases hhighest'
    cases hlowest'
    exact ⟨Index.mem_entries_of_lookup hlookup, hhigh, hlow⟩

/-- Whether the lists are found depends on the bitasset alone. -/
theorem Books.marginCalls_of_ok {s' : Books} {lists : List (ℕ × CallOrder) × List (ℕ × LimitOrder)}
    (h : s.marginCalls mia b = .ok lists) : ∃ lists', s'.marginCalls mia b = .ok lists' := by
  unfold marginCalls at h
  obtain ⟨highest, hhighest, h₁⟩ := except_bind_eq_ok.mp h
  obtain ⟨lowest, hlowest, h₂⟩ := except_bind_eq_ok.mp h₁
  obtain ⟨calls, hcalls, -⟩ := except_bind_eq_ok.mp h₂
  unfold callsOf at hcalls
  obtain ⟨low, hlow, hcalls₁⟩ := except_bind_eq_ok.mp hcalls
  obtain ⟨high, hhigh, -⟩ := except_bind_eq_ok.mp hcalls₁
  have hcalls' : s'.callsOf b.shortBackingAsset mia = .ok (s'.callsBetween low high) :=
    except_bind_eq_ok.mpr ⟨low, hlow, except_bind_eq_ok.mpr ⟨high, hhigh, rfl⟩⟩
  exact ⟨_, except_bind_eq_ok.mpr ⟨highest, hhighest, except_bind_eq_ok.mpr ⟨lowest, hlowest,
    except_bind_eq_ok.mpr ⟨_, hcalls', rfl⟩⟩⟩⟩

theorem Books.limitsBetween_pairwise (hs : Sound s) (highest lowest : Price) :
    (s.limitsBetween highest lowest).Pairwise fun a b => b.2.sellPrice.rank ≤ a.2.sellPrice.rank := by
  have hpos : ∀ e ∈ s.limitOrders.entries, e.2.sellPrice.Positive := fun e he =>
    (hs.limits e.1 e.2 (Index.lookup_of_mem_entries he)).positive
  have hkey : ∀ a ∈ s.limitOrders.entries.filter (fun e =>
        !e.2.sellPrice.gt highest && !lowest.gt e.2.sellPrice),
      ∀ b ∈ s.limitOrders.entries.filter (fun e =>
        !e.2.sellPrice.gt highest && !lowest.gt e.2.sellPrice),
      (limitBefore a b ↔ (toLex (OrderDual.toDual a.2.sellPrice.rank, a.1) : (ℕ ×ₗ ℕ ×ₗ ℚ)ᵒᵈ ×ₗ ℕ) ≤
        toLex (OrderDual.toDual b.2.sellPrice.rank, b.1)) := by
    intro a ha b hb
    have ha' := hpos a (List.mem_of_mem_filter ha)
    have hb' := hpos b (List.mem_of_mem_filter hb)
    unfold limitBefore
    rw [Prod.Lex.toLex_le_toLex, ← Bool.not_eq_true, ha'.gt_iff hb', hb'.gt_iff ha', not_lt]
    constructor
    · rintro (hlt | ⟨hle, hid⟩)
      · exact .inl hlt
      · rcases hle.lt_or_eq with hlt | heq
        · exact .inl hlt
        · exact .inr ⟨heq.symm, hid⟩
    · rintro (hlt | ⟨heq, hid⟩)
      · exact .inl hlt
      · exact .inr ⟨(congrArg OrderDual.ofDual heq).ge, hid⟩
  refine (List.pairwise_insertionSort_key _ hkey).imp fun h => ?_
  rcases Prod.Lex.toLex_le_toLex.mp h with hlt | ⟨heq, -⟩
  · exact le_of_lt hlt
  · exact (congrArg OrderDual.ofDual heq).ge

theorem Books.callsOf_pairwise {backing : ℕ} {calls : List (ℕ × CallOrder)} (hs : Sound s)
    (h : s.callsOf backing mia = .ok calls) :
    calls.Pairwise fun a b => a.2.callPrice.rank ≤ b.2.callPrice.rank := by
  unfold callsOf at h
  obtain ⟨lowest, -, h₁⟩ := except_bind_eq_ok.mp h
  obtain ⟨highest, -, h₂⟩ := except_bind_eq_ok.mp h₁
  cases h₂
  have hpos : ∀ e ∈ s.callOrders.entries, e.2.callPrice.Positive := fun e he =>
    (hs.calls e.1 e.2 (Index.lookup_of_mem_entries he)).1.inRange.positive
  have hkey : ∀ a ∈ s.callOrders.entries.filter (fun e =>
        !e.2.callPrice.lt lowest && !highest.lt e.2.callPrice),
      ∀ b ∈ s.callOrders.entries.filter (fun e =>
        !e.2.callPrice.lt lowest && !highest.lt e.2.callPrice),
      (callBefore CallOrder.callPrice a b ↔
        (toLex (a.2.callPrice.rank, a.1) : (ℕ ×ₗ ℕ ×ₗ ℚ) ×ₗ ℕ) ≤ toLex (b.2.callPrice.rank, b.1)) := by
    intro a ha b hb
    have ha' := hpos a (List.mem_of_mem_filter ha)
    have hb' := hpos b (List.mem_of_mem_filter hb)
    unfold callBefore
    rw [Prod.Lex.toLex_le_toLex, ← Bool.not_eq_true, ha'.lt_iff hb', hb'.lt_iff ha', not_lt]
    constructor
    · rintro (hlt | ⟨hle, hid⟩)
      · exact .inl hlt
      · exact hle.lt_or_eq.imp id fun heq => ⟨heq, hid⟩
    · rintro (hlt | ⟨heq, hid⟩)
      · exact .inl hlt
      · exact .inr ⟨le_of_eq heq, hid⟩
  refine (List.pairwise_insertionSort_key _ hkey).imp fun h => ?_
  rcases Prod.Lex.toLex_le_toLex.mp h with hlt | ⟨heq, -⟩
  · exact le_of_lt hlt
  · exact le_of_eq heq

end Spent

/-! ### Black swans -/

/-- The bitasset is not settled, and there is no black swan. -/
def Books.Calm (s : Books) (mia : ℕ) (b : BitassetData) : Prop :=
  b.hasSettlement = false ∧
    (b.currentFeed.settlementPrice.isNull = true ∨ s.swanPrice mia b = .ok none)

section Calm

variable {s s' : Books} {mia : ℕ} {b : BitassetData} {enable : Bool}

/-- Without a black swan nothing is done, with notes or without. -/
theorem checkForBlackswan_of_calm (hb : s.bitassets.lookup mia = some b) (h : s.Calm mia b) :
    checkForBlackswan mia enable s = .ok false s ∧
      ∀ notes, History.checkForBlackswan mia enable ⟨s, notes⟩ = .ok false ⟨s, notes⟩ := by
  obtain ⟨hunsettled, hcalm⟩ := h
  have hplain : checkForBlackswan mia enable s = .ok false s := by
    unfold checkForBlackswan
    rw [get_bind, hb]
    change (if b.hasSettlement = true then _ else _ : LedgerM Bool) s = _
    rw [if_neg (by rw [hunsettled]; exact Bool.false_ne_true)]
    rcases hcalm with hnull | hnone
    · rw [if_pos hnull]
      rfl
    · split
      · rfl
      · exact lift_bind_eq_ok.mpr ⟨none, hnone, rfl⟩
  refine ⟨hplain, fun notes => ?_⟩
  unfold History.checkForBlackswan
  rw [silent_get_bind, hb]
  change (if b.hasSettlement = true then _ else _ : MarketM Bool) ⟨s, notes⟩ = _
  rw [if_neg (by rw [hunsettled]; exact Bool.false_ne_true)]
  rcases hcalm with hnull | hnone
  · rw [if_pos hnull]
    rfl
  · split
    · rfl
    · rw [hnone]
      rfl

theorem calm_of_checkForBlackswan (hb : s.bitassets.lookup mia = some b)
    (h : checkForBlackswan mia enable s = .ok false s') : s.Calm mia b := by
  unfold checkForBlackswan at h
  rw [get_bind, hb] at h
  simp only at h
  split at h
  · exact absurd (pure_eq_ok.mp h).1 Bool.false_ne_true.symm
  next hsettled =>
  rw [Bool.not_eq_true] at hsettled
  split at h
  · next hnull => exact ⟨hsettled, .inl hnull⟩
  obtain ⟨swan, hswan, h₁⟩ := lift_bind_eq_ok.mp h
  cases swan with
  | none => exact ⟨hsettled, .inr hswan⟩
  | some price =>
    obtain ⟨-, h₂⟩ := assert_bind_eq_ok.mp h₁
    obtain ⟨_, s₁, -, h₃⟩ := bind_eq_ok.mp h₂
    exact absurd (pure_eq_ok.mp h₃).1 Bool.false_ne_true.symm

/-- The asset is settled. -/
def Books.Settled (s : Books) (mia : ℕ) : Prop :=
  ∃ b, s.bitassets.lookup mia = some b ∧ b.hasSettlement = true

/-- **`globally_settle_asset`** settles the asset. -/
theorem settled_of_globallySettleAsset {price : Price} {u : Unit} (hs : Sound s)
    (h : globallySettleAsset mia price s = .ok u s') : s'.Settled mia := by
  unfold globallySettleAsset at h
  rw [get_bind] at h
  obtain ⟨b, hb, h₁⟩ := require_bind_eq_ok.mp h
  obtain ⟨-, h₂⟩ := assert_bind_eq_ok.mp h₁
  obtain ⟨-, -, h₃⟩ := require_bind_eq_ok.mp h₂
  obtain ⟨d, -, h₄⟩ := require_bind_eq_ok.mp h₃
  obtain ⟨calls, hcalls, h₅⟩ := lift_bind_eq_ok.mp h₄
  obtain ⟨g, s₁, hloop, h₆⟩ := bind_eq_ok.mp h₅
  obtain ⟨price', hprice, h₇⟩ := lift_bind_eq_ok.mp h₆
  rw [update_bind] at h₇
  obtain ⟨d', -, rfl⟩ := modifyDynamicData_ok h₇
  have hloop' := settleCallOrders_ok (L := .noOrders) hs (Books.callsIn_of_callsOf hs hcalls) hloop
  refine ⟨{ b with settlementPrice := price', settlementFund := g.amount }, ?_, ?_⟩
  · change (s₁.bitassets.modify mia _).lookup mia = _
    rw [Table.lookup_modify, if_pos rfl, hloop'.bitassets, hb]
    rfl
  · -- the price is one between two assets
    refine BitassetData.hasSettlement_of_ne ?_
    unfold Asset.div at hprice
    split at hprice
    · next hne =>
      cases hprice
      exact hne
    · cases hprice

/-- The check returns true only if the asset is settled then. -/
theorem settled_of_checkForBlackswan (hs : Sound s) (h : checkForBlackswan mia enable s = .ok true s') :
    s'.Settled mia := by
  unfold checkForBlackswan at h
  rw [get_bind] at h
  cases hb : s.bitassets.lookup mia with
  | none =>
    rw [hb] at h
    exact absurd (pure_eq_ok.mp h).1 Bool.false_ne_true
  | some b =>
    rw [hb] at h
    simp only at h
    split at h
    · next hsettled =>
      obtain ⟨-, rfl⟩ := pure_eq_ok.mp h
      exact ⟨b, hb, hsettled⟩
    split at h
    · exact absurd (pure_eq_ok.mp h).1 Bool.false_ne_true
    obtain ⟨swan, -, h₁⟩ := lift_bind_eq_ok.mp h
    cases swan with
    | none => exact absurd (pure_eq_ok.mp h₁).1 Bool.false_ne_true
    | some price =>
      obtain ⟨-, h₂⟩ := assert_bind_eq_ok.mp h₁
      obtain ⟨_, s₁, hsettle, h₃⟩ := bind_eq_ok.mp h₂
      obtain ⟨-, rfl⟩ := pure_eq_ok.mp h₃
      exact settled_of_globallySettleAsset hs hsettle

end Calm

/-! ### The second run -/

section Again

variable {s : Books} {mia : ℕ} {b : BitassetData} {enable : Bool}

theorem marginCallLoop_of_spent {calls : List (ℕ × CallOrder)} {limits : List (ℕ × LimitOrder)}
    (hs : Sound s) (hb : s.bitassets.lookup mia = some b)
    (hfeed : b.currentFeed.settlementPrice.Positive) (hcalm : s.Calm mia b) (hspent : s.Spent mia b)
    (hlists : s.marginCalls mia b = .ok (calls, limits)) (hlimits : limits ≠ []) :
    marginCallLoop mia b enable (calls.length + limits.length) (calls.map Prod.fst)
      (limits.map Prod.fst) false false s = .ok false s := by
  obtain ⟨hcalls, hmem⟩ := Books.marginCalls_ok hlists
  obtain ⟨hcallsSound, hcallsAll⟩ := Books.callsOf_ok hs hcalls
  have hswan : checkForBlackswan mia enable s = .ok false s := (checkForBlackswan_of_calm hb hcalm).1
  obtain ⟨⟨j', limit'⟩, limits', rfl⟩ := List.exists_cons_of_ne_nil hlimits
  rw [List.length_cons, ← Nat.add_assoc]
  unfold marginCallLoop
  refine bind_eq_ok.mpr ⟨false, s, hswan, ?_⟩
  cases calls with
  | nil => rfl
  | cons e calls =>
    obtain ⟨i', call'⟩ := e
    obtain ⟨hcall', htype'⟩ := hcallsSound _ List.mem_cons_self
    obtain ⟨hlimit', hrange'⟩ := (hmem j' limit').mp List.mem_cons_self
    -- the two orders at the heads are not called
    have huncalled : b.Uncalled s.headTime call' limit' := by
      cases hspent with
      | noCalls hnone => exact absurd htype' (hnone i' call' hcall')
      | noLimits hnone => exact absurd hrange' (hnone j' limit' hlimit')
      | @uncalled i j call limit hcall htype hleast hlimit hrange hstop =>
        have hle := hleast i' call' hcall' htype'
        unfold BitassetData.Uncalled at hstop ⊢
        rw [Bool.or_eq_true, Bool.and_eq_true] at hstop ⊢
        rcases hstop with ⟨hprotected, htime⟩ | habove
        · exact .inl ⟨Books.not_reaches_of_le hs hb hfeed hcall htype hcall' htype' hle hprotected, htime⟩
        · refine .inr ?_
          have hpos := (hs.limits j limit hlimit).positive
          have hpos' := (hs.limits j' limit' hlimit').positive
          have hinv := (hs.calls i' call' hcall').1.inRange.positive.inv
          have habove' := Books.not_reaches_of_le hs hb hpos hcall htype hcall' htype' hle habove
          rw [hpos.gt_iff hinv] at habove'
          rw [hpos'.gt_iff hinv]
          -- the limit order at the head is the best one
          refine habove'.trans_le ?_
          have hin : (j, limit) ∈ (j', limit') :: limits' := (hmem j limit).mpr ⟨hlimit, hrange⟩
          rcases List.mem_cons.mp hin with heq | htail
          · cases heq
            exact le_refl _
          · unfold Books.marginCalls at hlists
            obtain ⟨highest, -, hlists₁⟩ := except_bind_eq_ok.mp hlists
            obtain ⟨lowest, -, hlists₂⟩ := except_bind_eq_ok.mp hlists₁
            obtain ⟨_, -, hlists₃⟩ := except_bind_eq_ok.mp hlists₂
            have hsorted := Books.limitsBetween_pairwise hs highest lowest
            have heq : s.limitsBetween highest lowest = (j', limit') :: limits' :=
              congrArg Prod.snd (Except.ok.inj hlists₃)
            rw [heq] at hsorted
            exact List.rel_of_pairwise_cons hsorted htail
    unfold BitassetData.Uncalled at huncalled
    have hvalid : limit'.sellPrice.validate = .ok () := by
      have hsound := hs.limits j' limit' hlimit'
      exact if_pos ⟨hsound.base_pos, hsound.quote_pos, hsound.assets_ne⟩
    have hround : marginCallRound mia b enable i' j' false false s = .ok (.stop false) s := by
      unfold marginCallRound
      rw [get_bind]
      refine require_bind_eq_ok.mpr ⟨limit', hlimit', require_bind_eq_ok.mpr ⟨call', hcall', ?_⟩⟩
      refine lift_bind_eq_ok.mpr ⟨(), hvalid, ?_⟩
      rw [if_pos huncalled]
      rfl
    exact bind_eq_ok.mpr ⟨.stop false, s, hround, rfl⟩

/-- **A second run** finds nothing to do where everything is spent. -/
theorem checkCallOrders_of_spent (hs : Sound s) (hb : s.bitassets.lookup mia = some b)
    (hfeed : b.currentFeed.settlementPrice.Positive) (hcalm : s.Calm mia b)
    (hspent : b.isPredictionMarket = false → ∃ lists, s.marginCalls mia b = .ok lists ∧ s.Spent mia b) :
    checkCallOrders mia enable s = .ok false s := by
  unfold checkCallOrders
  rw [get_bind, hb]
  refine bind_eq_ok.mpr ⟨false, s, (checkForBlackswan_of_calm hb hcalm).1, ?_⟩
  rw [if_neg Bool.false_ne_true]
  unfold callMargins
  split
  · rfl
  next hguard =>
  rw [Bool.or_eq_true, not_or, Bool.not_eq_true] at hguard
  obtain ⟨⟨calls, limits⟩, hlists, hspent'⟩ := hspent hguard.1
  rw [get_bind]
  refine lift_bind_eq_ok.mpr ⟨(calls, limits), hlists, ?_⟩
  change callMarginsOf mia b enable (calls.map Prod.fst) (limits.map Prod.fst) s = _
  unfold callMarginsOf
  split
  · rfl
  next hne =>
  rw [List.length_map, List.length_map]
  exact marginCallLoop_of_spent hs hb hfeed hcalm hspent' hlists fun hnil => hne (by rw [hnil]; rfl)

end Again

/-! ### A round of the first run -/

/-- Every call order existed before, with the same call price. -/
def OldPositions (s s' : Books) : Prop :=
  ∀ id o', s'.callOrders.lookup id = some o' →
    ∃ o, s.callOrders.lookup id = some o ∧ o'.callPrice = o.callPrice

theorem OldPositions.refl (s : Books) : OldPositions s s := fun _ o' ho' => ⟨o', ho', rfl⟩

theorem OldPositions.trans {s s₁ s' : Books} (h : OldPositions s s₁) (h' : OldPositions s₁ s') :
    OldPositions s s' := by
  intro id o'' ho''
  obtain ⟨o', ho', hprice'⟩ := h' id o'' ho''
  obtain ⟨o, ho, hprice⟩ := h id o' ho'
  exact ⟨o, ho, hprice'.trans hprice⟩

/-- A round in which a call order buys from a limit order. -/
structure CalledRound (call limit : ℕ) (callOrder : CallOrder) (limitOrder : LimitOrder)
    (filledLimit filledCall filledLimit' : Bool) (s s' : Books) : Prop where
  call_lookup : s.callOrders.lookup call = some callOrder
  limit_lookup : s.limitOrders.lookup limit = some limitOrder
  bitassets : s'.bitassets = s.bitassets
  positions : OldPositions s s'
  limits : OldLimits s s'
  flag : filledLimit' = (filledLimit || decide (limitOrder.forSale ≤ callOrder.debt))
  progress : filledCall = true ∨ filledLimit' = true
  call_gone : filledCall = true → s'.callOrders.lookup call = none
  limit_gone : limitOrder.forSale ≤ callOrder.debt → s'.limitOrders.lookup limit = none
  limit_left : callOrder.debt < limitOrder.forSale → s'.limitOrders.lookup limit = none ∨
    limitOrder.sellPrice.base.amount ≤
      (limitOrder.forSale - callOrder.debt) * limitOrder.sellPrice.quote.amount

section Round

variable {s s' : Books}

/-- **`fill_order`** of a call order touches no other call order, and no limit order. -/
theorem fillCallOrder_frame {id : ℕ} {pays receives : Asset} {filled : Bool}
    (h : fillCallOrder id pays receives s = .ok filled s') :
    s'.bitassets = s.bitassets ∧ s'.limitOrders = s.limitOrders ∧ OldPositions s s' ∧
      (filled = true → s'.callOrders.lookup id = none) := by
  obtain ⟨o, d, ho, -, -, -, -, ⟨-, rfl, hpaid⟩ | ⟨-, rfl, hpaid⟩⟩ := fillCallOrder_ok h
  · have hcalls : s'.callOrders = s.callOrders.erase id := by rw [hpaid.rest]
    refine ⟨by rw [hpaid.rest], by rw [hpaid.rest], fun i o' ho' => ?_, fun _ => ?_⟩
    · rw [hcalls, Index.lookup_erase] at ho'
      split at ho'
      · cases ho'
      · exact ⟨o', ho', rfl⟩
    · rw [hcalls, Index.lookup_erase, if_pos rfl]
  · have hcalls : s'.callOrders = s.callOrders.modify id fun _ =>
        { o with debt := o.debt - receives.amount, collateral := o.collateral - pays.amount } := by
      rw [hpaid.rest]
    refine ⟨by rw [hpaid.rest], by rw [hpaid.rest], fun i o' ho' => ?_, fun hfilled => ?_⟩
    · rw [hcalls, Index.lookup_modify] at ho'
      split at ho'
      · next hi =>
        rw [ho] at ho'
        cases ho'
        rw [hi]
        exact ⟨o, ho, rfl⟩
      · exact ⟨o', ho', rfl⟩
    · cases hfilled

/-- What culling leaves of a limit order is worth something. -/
theorem fillLimitOrder_left {id : ℕ} {o : LimitOrder} {pays receives : Asset} {filled : Bool}
    (hsound : o.Sound) (ho : s.limitOrders.lookup id = some o) (hnonneg : 0 ≤ pays.amount)
    (hless : pays.amount < o.forSale) (h : fillLimitOrder id pays receives true s = .ok filled s') :
    s'.limitOrders.lookup id = none ∨
      o.sellPrice.base.amount ≤ (o.forSale - pays.amount) * o.sellPrice.quote.amount := by
  have hlookup := fillLimitOrder_lookup ho h id
  rw [if_pos rfl] at hlookup
  cases filled with
  | true => exact .inl hlookup
  | false =>
    right
    unfold fillLimitOrder at h
    rw [get_bind] at h
    obtain ⟨o', ho', h₁⟩ := require_bind_eq_ok.mp h
    rw [ho] at ho'
    cases ho'
    obtain ⟨hid, h₂⟩ := assert_bind_eq_ok.mp h₁
    obtain ⟨-, h₃⟩ := assert_bind_eq_ok.mp h₂
    obtain ⟨fee, s₁, hfee, h₄⟩ := bind_eq_ok.mp h₃
    obtain ⟨_, s₂, hpay, h₅⟩ := bind_eq_ok.mp h₄
    obtain ⟨_, s₃, hdeferred, h₆⟩ := bind_eq_ok.mp h₅
    have hpaid := ((paid_payMarketFees hfee).trans (paid_payOrder hpay)).trans
      (paid_payDeferredFee hdeferred)
    have hlookup₃ : s₃.limitOrders.lookup id = some o := by
      rw [hpaid.rest]
      exact ho
    rw [Bool.true_or] at h₆
    unfold reduceLimitOrder at h₆
    split at h₆
    · obtain ⟨_, s₄, -, h₇⟩ := bind_eq_ok.mp h₆
      exact absurd (pure_eq_ok.mp h₇).1 Bool.false_ne_true.symm
    obtain ⟨_, s₄, hreduce, h₇⟩ := bind_eq_ok.mp h₆
    obtain rfl := update_eq_ok.mp hreduce
    rw [if_pos rfl] at h₇
    unfold maybeCullSmallOrder at h₇
    rw [get_bind] at h₇
    obtain ⟨rest, hrest, h₈⟩ := require_bind_eq_ok.mp h₇
    obtain ⟨worth, hworth, h₉⟩ := lift_bind_eq_ok.mp h₈
    have hreduced : rest = o.reduced pays.amount := by
      change (s₃.limitOrders.modify id _).lookup id = some rest at hrest
      rw [Index.lookup_modify, if_pos rfl, hlookup₃] at hrest
      exact (Option.some.inj hrest).symm
    have hpositive : worth.amount ≠ 0 := by
      intro hzero
      rw [if_pos hzero] at h₉
      obtain ⟨_, s₅, -, h₁₀⟩ := bind_eq_ok.mp h₉
      exact absurd (pure_eq_ok.mp h₁₀).1 Bool.false_ne_true.symm
    have hleft : 0 ≤ o.forSale - pays.amount := by omega
    have hsmall : o.forSale - pays.amount < 2 ^ 64 := (sub_le_self _ hnonneg).trans_lt hsound.forSale_small
    rw [hreduced] at hworth
    have heq := hsound.mul_of_base (a := (o.reduced pays.amount).amountForSale) rfl hleft hsmall hworth
    rw [heq] at hpositive
    refine (ediv_pos_iff_le hsound.base_pos).mp ?_
    have hnonneg' : 0 ≤ (o.forSale - pays.amount) * o.sellPrice.quote.amount / o.sellPrice.base.amount :=
      Int.ediv_nonneg (mul_nonneg hleft hsound.quote_pos.le) hsound.base_pos.le
    exact lt_of_le_of_ne hnonneg' (Ne.symm hpositive)

/-- Which orders a margin call fills. -/
theorem marginCallAmounts_filled {callOrder : CallOrder} {limitOrder : LimitOrder} {receives pays : Asset}
    {price : Price} {callFilled limitFilled : Bool}
    (h : marginCallAmounts callOrder.getDebt limitOrder.amountForSale price =
      .ok (receives, pays, callFilled, limitFilled)) :
    callFilled = decide (callOrder.debt ≤ limitOrder.forSale) ∧
      limitFilled = decide (limitOrder.forSale ≤ callOrder.debt) ∧
      receives.assetId = limitOrder.sellPrice.base.assetId := by
  unfold marginCallAmounts at h
  obtain ⟨filled, hfilled, h₁⟩ := except_bind_eq_ok.mp h
  unfold Asset.ge at hfilled
  cases hlt : callOrder.getDebt.lt limitOrder.amountForSale with
  | error e =>
    rw [hlt] at hfilled
    cases hfilled
  | ok less =>
    rw [hlt] at hfilled
    cases hfilled
    obtain ⟨hid, hless⟩ := Asset.lt_eq_ok hlt
    change less = true ↔ callOrder.debt < limitOrder.forSale at hless
    cases less with
    | false =>
      have hle : limitOrder.forSale ≤ callOrder.debt :=
        not_lt.mp fun hlt' => Bool.false_ne_true (hless.mpr hlt')
      rw [if_pos (show (!false) = true from rfl)] at h₁
      obtain ⟨paid, -, h₂⟩ := except_bind_eq_ok.mp h₁
      cases h₂
      refine ⟨?_, (decide_eq_true hle).symm, rfl⟩
      -- the amounts are equal, and so are the assets
      rw [decide_eq_decide]
      constructor
      · intro heq
        exact (congrArg Asset.amount heq).le
      · intro hge
        calc callOrder.getDebt = ⟨callOrder.debt, callOrder.getDebt.assetId⟩ := rfl
          _ = ⟨limitOrder.forSale, limitOrder.amountForSale.assetId⟩ := by
              rw [hid, le_antisymm hge hle]
    | true =>
      have hlt' : callOrder.debt < limitOrder.forSale := hless.mp rfl
      rw [if_neg (show ¬ (!true) = true from Bool.false_ne_true)] at h₁
      obtain ⟨paid, -, h₂⟩ := except_bind_eq_ok.mp h₁
      cases h₂
      exact ⟨(decide_eq_true hlt'.le).symm, (decide_eq_false (not_le.mpr hlt')).symm, hid⟩

theorem executeMarginCall_ok {call limit : ℕ} {callOrder : CallOrder} {limitOrder : LimitOrder}
    {receives pays : Asset} {price : Price} {filledLimit callFilled limitFilled gone gone' : Bool}
    {s₁ : Books} (hs : Sound s) (hcall : s.callOrders.lookup call = some callOrder)
    (hlimit : s.limitOrders.lookup limit = some limitOrder)
    (hamounts : marginCallAmounts callOrder.getDebt limitOrder.amountForSale price =
      .ok (receives, pays, callFilled, limitFilled))
    (hfillCall : fillCallOrder call pays receives s = .ok gone s₁)
    (hfillLimit : fillLimitOrder limit receives pays true s₁ = .ok gone' s') :
    CalledRound call limit callOrder limitOrder filledLimit callFilled (filledLimit || limitFilled) s
      s' := by
  obtain ⟨hcallFilled, hlimitFilled, hid⟩ := marginCallAmounts_filled hamounts
  have hreceives : receives.amount = min callOrder.debt limitOrder.forSale := marginCallAmounts_ok hamounts
  obtain ⟨hbitassets, hlimits, hpositions, hgone⟩ := fillCallOrder_frame hfillCall
  have hlimit₁ : s₁.limitOrders.lookup limit = some limitOrder := by
    rw [hlimits]
    exact hlimit
  have hsound := hs.limits limit limitOrder hlimit
  have hdebt := (hs.calls call callOrder hcall).1.debt_pos
  have hnonneg : 0 ≤ receives.amount := by
    rw [hreceives]
    exact le_min hdebt.le hsound.forSale_pos.le
  obtain ⟨o, s₂, ho, -, -, hpaid, hend⟩ := fillLimitOrder_ok hfillLimit
  rw [hlimit₁] at ho
  cases ho
  -- a fill of a limit order touches nothing else
  have hrest : s'.bitassets = s₁.bitassets ∧ s'.callOrders = s₁.callOrders := by
    cases hend with
    | all => exact ⟨by rw [hpaid.rest], by rw [hpaid.rest]⟩
    | part => exact ⟨by rw [hpaid.rest], by rw [hpaid.rest]⟩
    | culled _ hpaid' => exact ⟨by rw [hpaid'.rest, hpaid.rest], by rw [hpaid'.rest, hpaid.rest]⟩
  refine ⟨hcall, hlimit, hrest.1.trans hbitassets, ?_, ?_, ?_, ?_, ?_, ?_, ?_⟩
  · intro id o' ho'
    rw [hrest.2] at ho'
    exact hpositions id o' ho'
  · intro id o' ho'
    rw [fillLimitOrder_lookup hlimit₁ hfillLimit] at ho'
    split at ho'
    · next heq =>
      split at ho'
      · cases ho'
      · cases ho'
        rw [heq]
        exact ⟨limitOrder, hlimit, rfl⟩
    · rw [hlimits] at ho'
      exact ⟨o', ho', rfl⟩
  · rw [hlimitFilled]
  · rw [hcallFilled, hlimitFilled]
    rcases le_total callOrder.debt limitOrder.forSale with hle | hle
    · exact .inl (decide_eq_true hle)
    · exact .inr (by rw [decide_eq_true hle, Bool.or_true])
  · intro hfilled
    rw [hrest.2]
    refine hgone ?_
    have hle : callOrder.debt ≤ limitOrder.forSale := of_decide_eq_true (hcallFilled.symm.trans hfilled)
    rw [min_eq_left hle] at hreceives
    obtain ⟨o, d, ho, -, -, -, -, ⟨-, hfilled', -⟩ | ⟨hne, -, -⟩⟩ := fillCallOrder_ok hfillCall
    · exact hfilled'
    · rw [hcall] at ho
      cases ho
      exact absurd hreceives hne
  · intro hle
    rw [min_eq_right hle] at hreceives
    have hall : receives = limitOrder.amountForSale := by
      calc receives = ⟨receives.amount, receives.assetId⟩ := rfl
        _ = limitOrder.amountForSale := by rw [hreceives, hid]; rfl
    rw [fillLimitOrder_lookup hlimit₁ hfillLimit, if_pos rfl, fillLimitOrder_all hlimit₁ hall hfillLimit,
      if_pos rfl]
  · intro hlt
    rw [min_eq_left hlt.le] at hreceives
    rw [← hreceives] at hlt ⊢
    exact fillLimitOrder_left hsound hlimit₁ hnonneg hlt hfillLimit

end Round

/-! ### The rounds of a run -/

namespace History

/-- A margin call that fills its limit order. -/
def Note.FillsLimit : Note → Prop
  | marginCall call limit => limit.forSale ≤ call.debt
  | _ => False

/-- A margin call that leaves something of its limit order that is worth something. -/
def Note.LeavesLimit : Note → Prop
  | marginCall call limit => call.debt < limit.forSale ∧
      limit.sellPrice.base.amount ≤ (limit.forSale - call.debt) * limit.sellPrice.quote.amount
  | _ => False

/-- **A limit order is skipped**: after a round that filled one, a round leaves something of another. -/
def Note.Skips (later earlier : Note) : Prop := later.LeavesLimit ∧ earlier.FillsLimit

instance : DecidablePred Note.FillsLimit
  | .limitFill _ _ _ => inferInstanceAs (Decidable False)
  | .callFill _ _ _ => inferInstanceAs (Decidable False)
  | .matching _ _ => inferInstanceAs (Decidable False)
  | .marginCall call limit => inferInstanceAs (Decidable (limit.forSale ≤ call.debt))

instance : DecidablePred Note.LeavesLimit
  | .limitFill _ _ _ => inferInstanceAs (Decidable False)
  | .callFill _ _ _ => inferInstanceAs (Decidable False)
  | .matching _ _ => inferInstanceAs (Decidable False)
  | .marginCall call limit => inferInstanceAs (Decidable (call.debt < limit.forSale ∧
      limit.sellPrice.base.amount ≤ (limit.forSale - call.debt) * limit.sellPrice.quote.amount))

instance : DecidableRel Note.Skips := fun _ _ => inferInstanceAs (Decidable (_ ∧ _))

variable {r r' : Recorded Books Note} {mia : ℕ} {b : BitassetData} {enable : Bool}

/-- The check with notes, where it returns false. -/
theorem checkForBlackswan_false (hb : r.state.bitassets.lookup mia = some b)
    (h : checkForBlackswan mia enable r = .ok false r') : r' = r ∧ r.state.Calm mia b := by
  have hcalm := calm_of_checkForBlackswan hb ((erases_checkForBlackswan mia enable).ok h)
  have hsame : checkForBlackswan mia enable r = .ok false r :=
    (checkForBlackswan_of_calm hb hcalm).2 r.notes
  rw [hsame] at h
  cases h
  exact ⟨rfl, hcalm⟩

/-- **A round**: the loop stops at two orders that are not called, or it settles the asset, or the call
order buys from the limit order. -/
theorem marginCallRound_ok {call limit : ℕ} {filledLimit called : Bool} {result : MarginCall}
    (hs : Sound r.state)
    (h : marginCallRound mia b enable call limit filledLimit called r = .ok result r') :
    ∃ callOrder limitOrder, r.state.callOrders.lookup call = some callOrder ∧
      r.state.limitOrders.lookup limit = some limitOrder ∧
      (result = .stop called ∧ r' = r ∧ b.Uncalled r.state.headTime callOrder limitOrder ∨
        result = .stop true ∧ r'.state.Settled mia ∨
        ∃ filledCall filledLimit' fills, result = .called filledCall filledLimit' ∧
          CalledRound call limit callOrder limitOrder filledLimit filledCall filledLimit' r.state
            r'.state ∧ r'.notes = fills ++ .marginCall callOrder limitOrder :: r.notes) := by
  unfold marginCallRound at h
  rw [silent_get_bind] at h
  obtain ⟨limitOrder, hlimit, h₁⟩ := silent_require_bind_eq_ok.mp h
  obtain ⟨callOrder, hcall, h₂⟩ := silent_require_bind_eq_ok.mp h₁
  obtain ⟨-, -, h₃⟩ := silent_lift_bind_eq_ok.mp h₂
  refine ⟨callOrder, limitOrder, hcall, hlimit, ?_⟩
  split at h₃
  · next hstop =>
    obtain ⟨rfl, rfl⟩ := pure_eq_ok.mp h₃
    exact .inl ⟨rfl, rfl, hstop⟩
  obtain ⟨cost, -, h₄⟩ := silent_lift_bind_eq_ok.mp h₃
  obtain ⟨swan, -, h₅⟩ := silent_lift_bind_eq_ok.mp h₄
  unfold callOrSettle at h₅
  split at h₅
  · obtain ⟨_, s₁, hassert, h₆⟩ := silent_bind_eq_ok.mp h₅
    obtain ⟨-, rfl⟩ := assert_eq_ok.mp hassert
    obtain ⟨_, r₁, hsettle, h₇⟩ := bind_eq_ok.mp h₆
    obtain ⟨rfl, rfl⟩ := pure_eq_ok.mp h₇
    exact .inr (.inl ⟨rfl, settled_of_globallySettleAsset hs ((erases_globallySettleAsset mia _).ok hsettle)⟩)
  · rw [note_bind] at h₅
    unfold executeMarginCall at h₅
    obtain ⟨⟨receives, pays, callFilled, limitFilled⟩, hamounts, h₆⟩ := silent_lift_bind_eq_ok.mp h₅
    obtain ⟨gone, r₁, hfirst, h₇⟩ := bind_eq_ok.mp h₆
    obtain ⟨gone', r₂, hsecond, h₈⟩ := bind_eq_ok.mp h₇
    obtain ⟨rfl, rfl⟩ := pure_eq_ok.mp h₈
    unfold fillCallOrder at hfirst
    rw [note_bind] at hfirst
    obtain ⟨hfillCall, hnotes₁⟩ := silent_eq_ok.mp hfirst
    unfold fillLimitOrder at hsecond
    rw [note_bind] at hsecond
    obtain ⟨hfillLimit, hnotes₂⟩ := silent_eq_ok.mp hsecond
    refine .inr (.inr ⟨callFilled, filledLimit || limitFilled,
      [.limitFill limit receives pays, .callFill call pays receives], rfl, ?_, ?_⟩)
    · exact executeMarginCall_ok hs hcall hlimit hamounts hfillCall hfillLimit
    · rw [hnotes₂, hnotes₁]
      rfl

end History

/-- What the loop knows of the lists it goes through: all orders that are left are in them, and the call
orders come by call price. -/
structure Books.Remaining (s : Books) (mia : ℕ) (b : BitassetData) (calls limits : List ℕ) : Prop where
  calls_all : ∀ i o, s.callOrders.lookup i = some o → o.debtType = mia → i ∈ calls
  calls_in : s.CallsIn mia calls
  calls_sorted : calls.Pairwise fun i i' => ∀ o o', s.callOrders.lookup i = some o →
    s.callOrders.lookup i' = some o' → o.callPrice.rank ≤ o'.callPrice.rank
  limits_all : ∀ j o, s.limitOrders.lookup j = some o → b.Squeezes mia o → j ∈ limits
  limits_in : ∀ j ∈ limits, ∀ o, s.limitOrders.lookup j = some o → b.Squeezes mia o

namespace Books.Remaining

variable {s s' : Books} {mia : ℕ} {b : BitassetData} {calls limits : List ℕ}

/-- The lists at the beginning. -/
theorem start {calls : List (ℕ × CallOrder)} {limits : List (ℕ × LimitOrder)} (hs : Sound s)
    (hb : s.bitassets.lookup mia = some b) (h : s.marginCalls mia b = .ok (calls, limits)) :
    s.Remaining mia b (calls.map Prod.fst) (limits.map Prod.fst) := by
  obtain ⟨hcalls, hmem⟩ := Books.marginCalls_ok h
  obtain ⟨hcallsSound, hcallsAll⟩ := Books.callsOf_ok hs hcalls
  refine ⟨?_, Books.callsIn_of_callsOf hs hcalls, ?_, ?_, ?_⟩
  · intro i o ho htype
    exact List.mem_map.mpr ⟨(i, o), hcallsAll i o ho htype (hs.callPrice_assets hb ho htype), rfl⟩
  · refine List.pairwise_map.mpr (List.Pairwise.imp_of_mem ?_ (Books.callsOf_pairwise hs hcalls))
    intro e e' he he' hle o o' ho ho'
    rw [(hcallsSound e he).1] at ho
    rw [(hcallsSound e' he').1] at ho'
    cases ho
    cases ho'
    exact hle
  · intro j o ho hrange
    exact List.mem_map.mpr ⟨(j, o), (hmem j o).mpr ⟨ho, hrange⟩, rfl⟩
  · intro j hj o ho
    obtain ⟨⟨j', o'⟩, he, rfl⟩ := List.mem_map.mp hj
    obtain ⟨ho', hrange⟩ := (hmem j' o').mp he
    rw [ho'] at ho
    cases ho
    exact hrange

/-- The prices of orders stay as they are. -/
theorem keep (h : s.Remaining mia b calls limits) (hcalls : OldCalls s s') (hpositions : OldPositions s s')
    (hlimits : OldLimits s s') : s'.Remaining mia b calls limits := by
  refine ⟨?_, h.calls_in.keep hcalls, h.calls_sorted.imp ?_, ?_, ?_⟩
  · intro i o' ho' htype'
    obtain ⟨o, ho, hprice⟩ := hpositions i o' ho'
    refine h.calls_all i o ho ?_
    unfold CallOrder.debtType at htype' ⊢
    rw [← hprice]
    exact htype'
  · intro i i' hle o₁ o₂ ho₁ ho₂
    obtain ⟨o, ho, hprice⟩ := hpositions i o₁ ho₁
    obtain ⟨o', ho', hprice'⟩ := hpositions i' o₂ ho₂
    rw [hprice, hprice']
    exact hle o o' ho ho'
  · intro j o' ho' hrange
    obtain ⟨o, ho, hprice⟩ := hlimits j o' ho'
    refine h.limits_all j o ho ?_
    unfold BitassetData.Squeezes at hrange ⊢
    rw [← hprice]
    exact hrange
  · intro j hj o' ho'
    obtain ⟨o, ho, hprice⟩ := hlimits j o' ho'
    have hrange := h.limits_in j hj o ho
    unfold BitassetData.Squeezes at hrange ⊢
    rw [hprice]
    exact hrange

/-- A call order that is gone is left behind. -/
theorem dropCall {call : ℕ} (h : s.Remaining mia b (call :: calls) limits)
    (hgone : s.callOrders.lookup call = none) : s.Remaining mia b calls limits := by
  refine ⟨?_, fun i hi => h.calls_in i (List.mem_cons_of_mem _ hi), h.calls_sorted.of_cons, h.limits_all,
    h.limits_in⟩
  intro i o ho htype
  rcases List.mem_cons.mp (h.calls_all i o ho htype) with rfl | hmem
  · rw [hgone] at ho
    cases ho
  · exact hmem

/-- A limit order that is gone is left behind. -/
theorem dropLimit {limit : ℕ} (h : s.Remaining mia b calls (limit :: limits))
    (hgone : s.limitOrders.lookup limit = none) : s.Remaining mia b calls limits := by
  refine ⟨h.calls_all, h.calls_in, h.calls_sorted, ?_, fun j hj => h.limits_in j (List.mem_cons_of_mem _ hj)⟩
  intro j o ho hrange
  rcases List.mem_cons.mp (h.limits_all j o ho hrange) with rfl | hmem
  · rw [hgone] at ho
    cases ho
  · exact hmem

theorem spent_of_noCalls (h : s.Remaining mia b [] limits) : s.Spent mia b :=
  .noCalls fun i o ho htype => List.not_mem_nil (h.calls_all i o ho htype)

theorem spent_of_noLimits (h : s.Remaining mia b calls []) : s.Spent mia b :=
  .noLimits fun j o ho hrange => List.not_mem_nil (h.limits_all j o ho hrange)

/-- The orders at the heads are not called. -/
theorem spent_of_uncalled {call limit : ℕ} {callOrder : CallOrder} {limitOrder : LimitOrder}
    (h : s.Remaining mia b (call :: calls) (limit :: limits))
    (hcall : s.callOrders.lookup call = some callOrder)
    (hlimit : s.limitOrders.lookup limit = some limitOrder)
    (huncalled : b.Uncalled s.headTime callOrder limitOrder) : s.Spent mia b := by
  refine .uncalled hcall ((h.calls_in call List.mem_cons_self).2 callOrder hcall) ?_ hlimit
    (h.limits_in limit List.mem_cons_self limitOrder hlimit) huncalled
  intro i o ho htype
  rcases List.mem_cons.mp (h.calls_all i o ho htype) with rfl | hmem
  · rw [hcall] at ho
    cases ho
    exact le_refl _
  · exact List.rel_of_pairwise_cons h.calls_sorted hmem callOrder o hcall ho

end Books.Remaining

/-- What a run that does not settle the asset leaves. -/
structure Ended (mia : ℕ) (b : BitassetData) (s s' : Books) : Prop where
  bitasset : s'.bitassets.lookup mia = some b
  calm : s'.Calm mia b
  spent : s'.Spent mia b
  positions : OldPositions s s'
  limits : OldLimits s s'

namespace History

variable {r r' : Recorded Books Note} {mia : ℕ} {b : BitassetData} {enable : Bool}

/-- **The loop** ends where everything is spent, if no limit order is skipped. -/
theorem ended_of_marginCallLoop {fuel : ℕ} {calls limits : List ℕ} {filledLimit called result : Bool}
    (hs : Sound r.state) (hb : r.state.bitassets.lookup mia = some b)
    (hlists : r.state.Remaining mia b calls limits) (hfuel : calls.length + limits.length ≤ fuel)
    (hflag : filledLimit = true → ∃ n ∈ r.notes, n.FillsLimit)
    (h : marginCallLoop mia b enable fuel calls limits filledLimit called r = .ok result r')
    (hend : ¬ r'.state.Settled mia)
    (hskips : r'.notes.Pairwise fun later earlier => ¬ later.Skips earlier) :
    Ended mia b r.state r'.state := by
  induction fuel generalizing r calls limits filledLimit called with
  | zero =>
    unfold marginCallLoop at h
    obtain ⟨settled, r₁, hswan, h₁⟩ := bind_eq_ok.mp h
    obtain ⟨-, rfl⟩ := pure_eq_ok.mp h₁
    cases settled with
    | true =>
      exact absurd (settled_of_checkForBlackswan hs ((erases_checkForBlackswan mia enable).ok hswan)) hend
    | false =>
      obtain ⟨rfl, hcalm⟩ := checkForBlackswan_false hb hswan
      obtain rfl : calls = [] := List.length_eq_zero_iff.mp (by omega)
      exact ⟨hb, hcalm, hlists.spent_of_noCalls, .refl _, .of_eq rfl⟩
  | succ fuel ih =>
    unfold marginCallLoop at h
    obtain ⟨settled, r₁, hswan, h₁⟩ := bind_eq_ok.mp h
    cases settled with
    | true =>
      obtain ⟨-, rfl⟩ := pure_eq_ok.mp h₁
      exact absurd (settled_of_checkForBlackswan hs ((erases_checkForBlackswan mia enable).ok hswan)) hend
    | false =>
    obtain ⟨rfl, hcalm⟩ := checkForBlackswan_false hb hswan
    match calls, limits, hlists, hfuel, h₁ with
    | [], _, hlists, _, h₁ =>
      obtain ⟨-, rfl⟩ := pure_eq_ok.mp h₁
      exact ⟨hb, hcalm, hlists.spent_of_noCalls, .refl _, .of_eq rfl⟩
    | _ :: _, [], hlists, _, h₁ =>
      obtain ⟨-, rfl⟩ := pure_eq_ok.mp h₁
      exact ⟨hb, hcalm, hlists.spent_of_noLimits, .refl _, .of_eq rfl⟩
    | call :: calls, limit :: limits, hlists, hfuel, h₁ =>
    obtain ⟨round, r₂, hround, h₂⟩ := bind_eq_ok.mp h₁
    have hround' := (erases_marginCallRound mia b enable call limit filledLimit called).ok hround
    have hone : r₁.state.CallsIn mia [call] := fun i hi =>
      hlists.calls_in i (by rw [List.mem_singleton.mp hi]; exact List.mem_cons_self)
    have hposted := postings_marginCallRound (Licence.noOrders_keeps hs) hone hround'
    obtain ⟨callOrder, limitOrder, hcall, hlimit, ⟨rfl, rfl, hstop⟩ | ⟨rfl, hsettled⟩ |
      ⟨filledCall, filledLimit', fills, rfl, hcalled, hnotes⟩⟩ := marginCallRound_ok hs hround
    · obtain ⟨-, rfl⟩ := pure_eq_ok.mp h₂
      exact ⟨hb, hcalm, hlists.spent_of_uncalled hcall hlimit hstop, .refl _, .of_eq rfl⟩
    · obtain ⟨-, rfl⟩ := pure_eq_ok.mp h₂
      exact absurd hsettled hend
    · have hs₂ := hposted.sound hs
      have hb₂ : r₂.state.bitassets.lookup mia = some b := by
        rw [hcalled.bitassets]
        exact hb
      have hkept := hlists.keep hposted.oldCalls hcalled.positions hcalled.limits
      -- the notes of the round are among those of the run
      have hcallsIn : r₂.state.CallsIn mia (if filledCall then calls else call :: calls) := by
        intro i hi
        refine hkept.calls_in i ?_
        split at hi
        · exact List.mem_cons_of_mem _ hi
        · exact hi
      obtain ⟨new, hnew, -⟩ := adds_marginCallLoop hs₂ hcallsIn r₂.notes result r' h₂
      have hnoted : (fills ++ .marginCall callOrder limitOrder :: r₁.notes).Pairwise
          fun later earlier => ¬ later.Skips earlier := by
        rw [hnew, hnotes] at hskips
        exact (List.pairwise_append.mp hskips).2.1
      have hnoSkip : ∀ n ∈ r₁.notes, ¬ (Note.marginCall callOrder limitOrder).Skips n := fun n hn =>
        List.rel_of_pairwise_cons (List.pairwise_append.mp hnoted).2.1 hn
      -- a limit order that is left behind is gone
      have hgone : filledLimit' = true → r₂.state.limitOrders.lookup limit = none := by
        intro hset
        by_cases hle : limitOrder.forSale ≤ callOrder.debt
        · exact hcalled.limit_gone hle
        · have hlt := not_le.mp hle
          rw [hcalled.flag, decide_eq_false hle, Bool.or_false] at hset
          obtain ⟨n, hn, hfills⟩ := hflag hset
          rcases hcalled.limit_left hlt with hnone | hworth
          · exact hnone
          · exact absurd ⟨⟨hlt, hworth⟩, hfills⟩ (hnoSkip n hn)
      have hflag' : filledLimit' = true → ∃ n ∈ r₂.notes, n.FillsLimit := by
        intro hset
        rw [hnotes]
        by_cases hle : limitOrder.forSale ≤ callOrder.debt
        · exact ⟨.marginCall callOrder limitOrder, List.mem_append_right _ List.mem_cons_self, hle⟩
        · rw [hcalled.flag, decide_eq_false hle, Bool.or_false] at hset
          obtain ⟨n, hn, hfills⟩ := hflag hset
          exact ⟨n, List.mem_append_right _ (List.mem_cons_of_mem _ hn), hfills⟩
      have hlists₂ : r₂.state.Remaining mia b (if filledCall then calls else call :: calls)
          (if filledLimit' then limits else limit :: limits) := by
        cases filledCall with
        | true =>
          cases filledLimit' with
          | true => exact (hkept.dropCall (hcalled.call_gone rfl)).dropLimit (hgone rfl)
          | false => exact hkept.dropCall (hcalled.call_gone rfl)
        | false =>
          cases filledLimit' with
          | true => exact hkept.dropLimit (hgone rfl)
          | false => exact hkept
      have hfuel₂ : (if filledCall then calls else call :: calls).length +
          (if filledLimit' then limits else limit :: limits).length ≤ fuel := by
        rw [List.length_cons, List.length_cons] at hfuel
        rcases hcalled.progress with rfl | rfl
        · rw [if_pos rfl]
          split
          · omega
          · rw [List.length_cons]
            omega
        · rw [if_pos rfl]
          split
          · omega
          · rw [List.length_cons]
            omega
      have hrest := ih hs₂ hb₂ hlists₂ hfuel₂ hflag' h₂
      exact ⟨hrest.bitasset, hrest.calm, hrest.spent, hcalled.positions.trans hrest.positions,
        hcalled.limits.trans hrest.limits⟩

end History

/-- **Margin calls are exhaustive** in every run of `check_call_orders` that neither settles the asset nor
skips a limit order: a second run changes nothing, and no call order that the feed reaches and no limit
order inside its call price are left, where no limit order was above it. -/
theorem margin_calls_exhausted {s s' : Books} {mia : ℕ} {b : BitassetData} {enable called : Bool}
    (hs : Sound s) (hb : s.bitassets.lookup mia = some b)
    (hfeed : b.HasFeed) (h : checkCallOrders mia enable s = .ok called s')
    (hend : ¬ s'.Settled mia) :
    ∃ notes, History.checkCallOrders mia enable ⟨s, []⟩ = .ok called ⟨s', notes⟩ ∧
      ((notes.Pairwise fun later earlier => ¬ later.Skips earlier) →
        (∀ enable', checkCallOrders mia enable' s' = .ok false s') ∧
        (b.isPredictionMarket = false → s.OffersReach mia b → s'.Exhausted mia b)) := by
  obtain ⟨notes, hnoted⟩ := (erases_checkCallOrders mia enable).exists_ok h []
  refine ⟨notes, hnoted, fun hskips => ?_⟩
  have hs' := (postings_checkCallOrders (Licence.noOrders_keeps hs) h).sound hs
  suffices hended : s'.bitassets.lookup mia = some b ∧ s'.Calm mia b ∧ (b.isPredictionMarket = false →
      (∃ lists, s.marginCalls mia b = .ok lists) ∧ Ended mia b s s') by
    obtain ⟨hb', hcalm, hended⟩ := hended
    refine ⟨fun enable' => checkCallOrders_of_spent hs' hb' hfeed.positive hcalm fun hmarket => ?_, ?_⟩
    · obtain ⟨⟨lists, hlists⟩, hended'⟩ := hended hmarket
      obtain ⟨lists', hlists'⟩ : ∃ lists', s'.marginCalls mia b = .ok lists' :=
        Books.marginCalls_of_ok hlists
      exact ⟨lists', hlists', hended'.spent⟩
    · intro hmarket hoffers
      have hended' := (hended hmarket).2
      refine hended'.spent.exhausted hs' hb' hfeed.positive
        fun i j call limit hcall htype hreached hlimit hrange => ?_
      obtain ⟨call₀, hcall₀, hprice⟩ := hended'.positions i call hcall
      obtain ⟨limit₀, hlimit₀, hprice'⟩ := hended'.limits j limit hlimit
      unfold CallOrder.debtType at htype
      unfold BitassetData.Reaches at hreached
      unfold BitassetData.Squeezes at hrange
      unfold LimitOrder.Reaches
      rw [hprice] at htype hreached ⊢
      rw [hprice'] at hrange ⊢
      exact hoffers i j call₀ limit₀ hcall₀ htype hreached hlimit₀ hrange
  -- the first run
  unfold History.checkCallOrders at hnoted
  rw [silent_get_bind] at hnoted
  rw [hb] at hnoted
  obtain ⟨settled, r₁, hswan, h₁⟩ := bind_eq_ok.mp hnoted
  cases settled with
  | true =>
    obtain ⟨-, rfl⟩ := pure_eq_ok.mp h₁
    exact absurd (settled_of_checkForBlackswan hs ((erases_checkForBlackswan mia enable).ok hswan)) hend
  | false =>
    obtain ⟨rfl, hcalm⟩ := checkForBlackswan_false hb hswan
    rw [if_neg Bool.false_ne_true] at h₁
    unfold History.callMargins at h₁
    split at h₁
    · next hguard =>
      obtain ⟨-, hsame⟩ := pure_eq_ok.mp h₁
      obtain rfl : s = s' := congrArg Recorded.state hsame
      refine ⟨hb, hcalm, fun hmarket => ?_⟩
      rw [hmarket, hfeed.present] at hguard
      cases hguard
    rw [silent_get_bind] at h₁
    obtain ⟨⟨calls, limits⟩, hlists, h₂⟩ := silent_lift_bind_eq_ok.mp h₁
    change History.callMarginsOf mia b enable (calls.map Prod.fst) (limits.map Prod.fst) ⟨s, []⟩ = _ at h₂
    have hstart := Books.Remaining.start hs hb hlists
    unfold History.callMarginsOf at h₂
    split at h₂
    · next hnil =>
      obtain ⟨-, hsame⟩ := pure_eq_ok.mp h₂
      obtain rfl : s = s' := congrArg Recorded.state hsame
      rw [hnil] at hstart
      exact ⟨hb, hcalm, fun _ => ⟨⟨_, hlists⟩, hb, hcalm, hstart.spent_of_noLimits, .refl _, .of_eq rfl⟩⟩
    · have hended := ended_of_marginCallLoop hs hb hstart le_rfl (fun hset => absurd hset Bool.false_ne_true)
        h₂ hend hskips
      exact ⟨hended.bitasset, hended.calm, fun _ => ⟨⟨_, hlists⟩, hended⟩⟩

section Example

/-- The second account borrows 1000 of the bitasset for 4100. -/
private def borrowAlso : Event := .operation (.callOrderUpdate
  { fee := ⟨20, core⟩, fundingAccount := 11, deltaCollateral := ⟨4100, core⟩, deltaDebt := ⟨1000, 1⟩
    deltaCollateral_fits := fits_moreCollateral, deltaDebt_fits := fitsShare_thousand })

/-- Somebody sells some of the bitasset at 2.5 of core. -/
private def offer (seller : ℕ) (amount wanted : ℤ) (hamount : FitsShare amount := by decide)
    (hwanted : FitsShare wanted := by decide) : Event :=
  .operation (.limitOrderCreate
    { fee := ⟨20, core⟩
      seller := seller
      amountToSell := ⟨amount, 1⟩
      minToReceive := ⟨wanted, core⟩
      expiration := 1600000000
      fillOrKill := false
      amountToSell_fits := hamount
      minToReceive_fits := hwanted })

/-- There are two positions. -/
private def twoPositions : List Event := [borrowAlso, publishPrice, setProducer]

/-- One of the bitasset for 2.4 of core. -/
private def lowFeed : PriceFeed := ⟨⟨⟨5, 1⟩, ⟨12, core⟩⟩, ⟨⟨1, 1⟩, ⟨2, core⟩⟩, 1750, 1500⟩

/-- The feed is low now, and margin calls have not been checked yet. -/
private def lowered (es : List Event) : Books :=
  { afterEvents es with
    bitassets := (afterEvents es).bitassets.modify 1 fun b => { b with currentFeed := lowFeed } }

private theorem sound_lowered {es : List Event} {b : BitassetData}
    (h : Steps smallSettings (fun _ _ => True) Beside smallChain (afterEvents es))
    (hb : (afterEvents es).bitassets.lookup 1 = some b) : Sound (lowered es) := by
  have hs := (Reachable.regular ⟨smallChain, genesis_smallChain, h⟩).1.toSound
  have hratio : PriceFeed.RatioInRange lowFeed.maintenanceCollateralRatio := by decide
  have hposting : Postings .noOrders (afterEvents es) 0 (lowered es) :=
    .single (.setBitasset hb rfl rfl (fun hfeeds => ⟨hfeeds.feeds, hratio⟩) (.inl rfl))
  exact hposting.sound hs

private theorem exists_feed_lowered {es : List Event} {b : BitassetData}
    (hb : (afterEvents es).bitassets.lookup 1 = some b) :
    ∃ b', (lowered es).bitassets.lookup 1 = some b' ∧ b'.HasFeed ∧ b'.hasSettlement = b.hasSettlement := by
  have hfeed : lowFeed.settlementPrice.Positive ∧ lowFeed.settlementPrice.isNull = false :=
    ⟨⟨by decide, by decide, by decide, by decide⟩, by decide⟩
  refine ⟨{ b with currentFeed := lowFeed }, ?_, ⟨hfeed.1, hfeed.2⟩, rfl⟩
  change ((afterEvents es).bitassets.modify 1 _).lookup 1 = _
  rw [Table.lookup_modify, if_pos rfl, hb]
  rfl

private theorem steps_twoPositions :
    Steps smallSettings (fun _ _ => True) Beside smallChain (afterEvents twoPositions) := by
  refine (((Steps.refl smallChain).afterEvents trivial ?_ ?_).afterEvents trivial ?_ ?_).afterEvents
    trivial ?_ ?_
  all_goals first
    | decide +kernel
    | exact fits_afterEvents (by decide +kernel) (by decide +kernel)

/-- The state after a run of `check_call_orders`. -/
private def called (s : Books) : Books := final (checkCallOrders 1 true) s

private theorem not_settled_of_data {s : Books}
    (h : (s.bitassets.lookup 1).map BitassetData.hasSettlement = some false) : ¬ s.Settled 1 := by
  rintro ⟨b, hb, hsettled⟩
  rw [hb, Option.map_some, hsettled] at h
  cases h

/-- One offer, of which the first position buys all. -/
private def oneOffer : List Event := offer 10 400 1000 :: twoPositions

/-- The first position buys 400 of the 1000 it owes, and there is nothing else to buy. -/
theorem margin_calls_exhausted_one :
    ∃ s s', checkCallOrders 1 true s = .ok true s' ∧ checkCallOrders 1 true s' = .ok false s' ∧
      s.limitOrders.entries.length = 1 ∧ s'.limitOrders.entries.length = 0 := by
  have hsteps : Steps smallSettings (fun _ _ => True) Beside smallChain (afterEvents oneOffer) := by
    refine steps_twoPositions.afterEvents trivial ?_ ?_
    · decide +kernel
    · exact fits_afterEvents (by decide +kernel) (by decide +kernel)
  have hsome : ((afterEvents oneOffer).bitassets.lookup 1).isSome = true := by decide +kernel
  obtain ⟨b₀, hb₀⟩ := Option.isSome_iff_exists.mp hsome
  obtain ⟨b, hb, hfeed, -⟩ := exists_feed_lowered hb₀
  have hrun : (checkCallOrders 1 true).run' (lowered oneOffer) = some true := by decide +kernel
  have hend : ¬ (called (lowered oneOffer)).Settled 1 := not_settled_of_data (by decide +kernel)
  have hskips : (final (History.checkCallOrders 1 true) ⟨lowered oneOffer, []⟩).notes.Pairwise
      fun later earlier => ¬ later.Skips earlier := by
    decide +kernel
  have hcounts : (lowered oneOffer).limitOrders.entries.length = 1 ∧
      (called (lowered oneOffer)).limitOrders.entries.length = 0 := by
    decide +kernel
  obtain ⟨notes, hnoted, hexhausted⟩ := margin_calls_exhausted (sound_lowered hsteps hb₀) hb hfeed
    (ok_final_of_run' hrun) hend
  rw [final_of_ok hnoted] at hskips
  exact ⟨_, _, ok_final_of_run' hrun, (hexhausted hskips).1 true, hcounts⟩

/-- Another offer, of which there is something left when the first position has bought what it owes. -/
private def twoOffers : List Event := offer 11 900 2250 :: oneOffer

/-- The first position buys all of the first offer and a part of the second one, which is passed over
then. A second run finds the second position and what is left of that offer. -/
theorem not_margin_calls_exhausted :
    ¬ ∀ (s s' : Books) (mia : ℕ) (b : BitassetData) (enable result : Bool), Sound s →
      hardfork436Time < s.headTime → s.bitassets.lookup mia = some b → b.HasFeed →
      b.hasSettlement = false → checkCallOrders mia enable s = .ok result s' → ¬ s'.Settled mia →
      ∃ result', checkCallOrders mia enable s' = .ok result' s' := by
  intro hall
  have hsteps : Steps smallSettings (fun _ _ => True) Beside smallChain (afterEvents twoOffers) := by
    refine (steps_twoPositions.afterEvents trivial ?_ ?_).afterEvents trivial ?_ ?_
    all_goals first
      | decide +kernel
      | exact fits_afterEvents (by decide +kernel) (by decide +kernel)
  have hsome : ((afterEvents twoOffers).bitassets.lookup 1).map BitassetData.hasSettlement =
      some false := by
    decide +kernel
  obtain ⟨b₀, hb₀, hunsettled⟩ := Option.map_eq_some_iff.mp hsome
  obtain ⟨b, hb, hfeed, hsame⟩ := exists_feed_lowered hb₀
  have hrun : (checkCallOrders 1 true).run' (lowered twoOffers) = some true := by decide +kernel
  have hend : ¬ (called (lowered twoOffers)).Settled 1 := not_settled_of_data (by decide +kernel)
  obtain ⟨result, hagain⟩ := hall _ _ 1 b true true (sound_lowered hsteps hb₀) (by decide +kernel) hb
    hfeed (hsame.trans hunsettled) (ok_final_of_run' hrun) hend
  have hdebts : ((called (lowered twoOffers)).callOrders.lookup 1).map CallOrder.debt = some 1000 ∧
      ((called (called (lowered twoOffers))).callOrders.lookup 1).map CallOrder.debt = some 700 := by
    decide +kernel
  have hsecond : called (called (lowered twoOffers)) = called (lowered twoOffers) := final_of_ok hagain
  rw [hsecond, hdebts.1] at hdebts
  exact absurd hdebts.2 (by decide)

end Example

end FinChain.Ledger
