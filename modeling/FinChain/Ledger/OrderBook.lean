import FinChain.Ledger.Events

/-!
# The order book is not crossed

Two limit orders on the two sides of a market cross when each of them would take the price of the
other. `apply_order` matches a new order with the best order of the other side until it is used up or
there is no order left that it crosses; the orders that it does not fill keep their price. So a book
that is not crossed stays like this: margin calls, settlements, cancellations and orders that expire
only take orders away or make them smaller (`OldLimits`), and inside of `apply_order` no two orders
cross but the new one with others (`UncrossedBut`).

The orders of the other side are looked up from `price::max` on, which is
`GRAPHENE_MAX_SHARE_SUPPLY` to 1. An order with a higher price is not found. Such orders exist:
nothing keeps the supply of a bitasset below this number. A book in which each order can be found is
never crossed (`book_uncrossed`); with an order that cannot be found it may be
(`not_book_uncrossed`).
-/

namespace FinChain.Ledger

open Exec

/-! ### Comparing prices -/

theorem Price.le_of_same {a b : Price} (hbase : a.base.assetId = b.base.assetId)
    (hquote : a.quote.assetId = b.quote.assetId) : a.le b = decide (a.cross b ≤ b.cross a) := by
  rw [le, lt_of_same hbase hquote, eq, Bool.eq_iff_iff]
  simp only [Bool.or_eq_true, decide_eq_true_eq, hbase, hquote, true_and]
  exact le_iff_eq_or_lt.symm

theorem Price.gt_of_same {a b : Price} (hbase : a.base.assetId = b.base.assetId)
    (hquote : a.quote.assetId = b.quote.assetId) : a.gt b = decide (b.cross a < a.cross b) := by
  rw [gt, le_of_same hbase hquote, Bool.eq_iff_iff]
  simp only [Bool.not_eq_true', decide_eq_false_iff_not, decide_eq_true_eq, not_le]

/-- Two limit orders on the two sides of one market, with `a.sell_price >= ~b.sell_price`. -/
def LimitOrder.Crosses (a b : LimitOrder) : Prop :=
  a.sellPrice.base.assetId = b.sellPrice.quote.assetId ∧
    a.sellPrice.quote.assetId = b.sellPrice.base.assetId ∧ a.sellPrice.ge b.sellPrice.inv = true

namespace LimitOrder.Sound

variable {a b : LimitOrder}

theorem base_nonneg (ha : a.Sound) : 0 ≤ a.sellPrice.base.amount := ha.forSale_pos.le.trans ha.forSale_le

theorem base_small (ha : a.Sound) : a.sellPrice.base.amount < 2 ^ 64 := lt_trans ha.base_lt (by decide)

theorem quote_small (ha : a.Sound) : a.sellPrice.quote.amount < 2 ^ 64 :=
  lt_trans ha.quote_lt (by decide)

/-- The amounts that decide whether two orders cross. -/
theorem cross_inv (ha : a.Sound) (hb : b.Sound) :
    a.sellPrice.cross b.sellPrice.inv = b.sellPrice.base.amount * a.sellPrice.base.amount ∧
      b.sellPrice.inv.cross a.sellPrice = a.sellPrice.quote.amount * b.sellPrice.quote.amount :=
  ⟨Price.cross_eq hb.base_nonneg hb.base_small ha.base_nonneg ha.base_small,
    Price.cross_eq ha.quote_pos.le ha.quote_small hb.quote_pos.le hb.quote_small⟩

theorem crosses_iff (ha : a.Sound) (hb : b.Sound) :
    a.Crosses b ↔ a.sellPrice.base.assetId = b.sellPrice.quote.assetId ∧
      a.sellPrice.quote.assetId = b.sellPrice.base.assetId ∧
      a.sellPrice.quote.amount * b.sellPrice.quote.amount ≤
        b.sellPrice.base.amount * a.sellPrice.base.amount := by
  refine and_congr_right fun hbase => and_congr_right fun hquote => ?_
  rw [Price.ge, Price.lt_of_same hbase hquote, (ha.cross_inv hb).1, (ha.cross_inv hb).2]
  simp only [Bool.not_eq_true', decide_eq_false_iff_not, not_lt]

theorem crosses_symm (ha : a.Sound) (hb : b.Sound) (h : a.Crosses b) : b.Crosses a := by
  obtain ⟨hbase, hquote, hle⟩ := (ha.crosses_iff hb).mp h
  refine (hb.crosses_iff ha).mpr ⟨hquote.symm, hbase.symm, ?_⟩
  calc b.sellPrice.quote.amount * a.sellPrice.quote.amount
      = a.sellPrice.quote.amount * b.sellPrice.quote.amount := mul_comm _ _
    _ ≤ b.sellPrice.base.amount * a.sellPrice.base.amount := hle
    _ = a.sellPrice.base.amount * b.sellPrice.base.amount := mul_comm _ _

end LimitOrder.Sound

/-- Only the price decides. -/
theorem LimitOrder.Crosses.of_same {a b a' b' : LimitOrder} (h : a.Crosses b)
    (ha : a.sellPrice = a'.sellPrice) (hb : b.sellPrice = b'.sellPrice) : a'.Crosses b' := by
  unfold Crosses at h ⊢
  rw [← ha, ← hb]
  exact h

/-! ### The orders that `apply_order` finds -/

/-- The price is at most `price::max`. -/
def LimitOrder.Found (o : LimitOrder) : Prop :=
  o.sellPrice.base.amount ≤ maxShareSupply * o.sellPrice.quote.amount

/-- An order that crosses the new one is among those that `apply_order` goes through. -/
theorem LimitOrder.Crosses.mem_limitsBetween {new o : LimitOrder} {id : ℕ} {highest : Price}
    {s : Books} (hcrosses : new.Crosses o) (hnew : new.Sound) (ho : o.Sound) (hfound : o.Found)
    (hlookup : s.limitOrders.lookup id = some o)
    (hmax : Price.max new.sellPrice.quote.assetId new.sellPrice.base.assetId = .ok highest) :
    id ∈ (s.limitsBetween highest new.sellPrice.inv).map Prod.fst := by
  obtain ⟨-, rfl⟩ := Price.max_eq_ok hmax
  obtain ⟨hbase, hquote, hle⟩ := (hnew.crosses_iff ho).mp hcrosses
  refine List.mem_map.mpr ⟨(id, o), ?_, rfl⟩
  rw [Books.limitsBetween, List.mem_insertionSort, List.mem_filter]
  refine ⟨Index.mem_entries_of_lookup hlookup, ?_⟩
  simp only [Bool.and_eq_true, Bool.not_eq_true']
  have hmaxPos : (0 : ℤ) ≤ maxShareSupply := by decide
  have hmaxLt : maxShareSupply < 2 ^ 64 := by decide
  have hone : (0 : ℤ) ≤ 1 := by decide
  have hone' : (1 : ℤ) < 2 ^ 64 := by decide
  constructor
  · rw [Price.gt_of_same hquote.symm hbase.symm,
      Price.cross_eq ho.quote_pos.le ho.quote_small hmaxPos hmaxLt,
      Price.cross_eq hone hone' ho.base_nonneg ho.base_small, decide_eq_false_iff_not]
    refine not_lt.mpr ?_
    calc 1 * o.sellPrice.base.amount = o.sellPrice.base.amount := one_mul _
      _ ≤ maxShareSupply * o.sellPrice.quote.amount := hfound
      _ = o.sellPrice.quote.amount * maxShareSupply := mul_comm _ _
  · rw [Price.gt_of_same (a := new.sellPrice.inv) hquote hbase, (ho.cross_inv hnew).1,
      (ho.cross_inv hnew).2, decide_eq_false_iff_not]
    refine not_lt.mpr ?_
    calc o.sellPrice.quote.amount * new.sellPrice.quote.amount
        = new.sellPrice.quote.amount * o.sellPrice.quote.amount := mul_comm _ _
      _ ≤ o.sellPrice.base.amount * new.sellPrice.base.amount := hle
      _ = new.sellPrice.base.amount * o.sellPrice.base.amount := mul_comm _ _

/-! ### The book -/

/-- **The book is not crossed**: there are no two limit orders, one of which sells what the other one
asks for, with `a.sell_price >= ~b.sell_price`. -/
def Uncrossed (s : Books) : Prop :=
  ∀ i j a b, s.limitOrders.lookup i = some a → s.limitOrders.lookup j = some b → ¬ a.Crosses b

/-- No two orders cross, one order aside. -/
def UncrossedBut (id : ℕ) (s : Books) : Prop :=
  ∀ i j a b, i ≠ id → j ≠ id → s.limitOrders.lookup i = some a → s.limitOrders.lookup j = some b →
    ¬ a.Crosses b

theorem UncrossedBut.uncrossed {id : ℕ} {s : Books} (h : UncrossedBut id s)
    (hid : s.limitOrders.lookup id = none) : Uncrossed s := by
  intro i j a b ha hb
  refine h i j a b ?_ ?_ ha hb
  · rintro rfl
    rw [hid] at ha
    cases ha
  · rintro rfl
    rw [hid] at hb
    cases hb

/-- Every limit order existed before, with the same price. -/
def OldLimits (s s' : Books) : Prop :=
  ∀ id o', s'.limitOrders.lookup id = some o' →
    ∃ o, s.limitOrders.lookup id = some o ∧ o'.sellPrice = o.sellPrice

namespace OldLimits

variable {s s₁ s' : Books}

theorem of_eq (h : s'.limitOrders = s.limitOrders) : OldLimits s s' := by
  intro id o' ho'
  rw [h] at ho'
  exact ⟨o', ho', rfl⟩

theorem trans (h : OldLimits s s₁) (h' : OldLimits s₁ s') : OldLimits s s' := by
  intro id o'' ho''
  obtain ⟨o', ho', hprice'⟩ := h' id o'' ho''
  obtain ⟨o, ho, hprice⟩ := h id o' ho'
  exact ⟨o, ho, hprice'.trans hprice⟩

/-- An order that is gone does not come back. -/
theorem gone (h : OldLimits s s') {id : ℕ} (hid : s.limitOrders.lookup id = none) :
    s'.limitOrders.lookup id = none := by
  cases ho' : s'.limitOrders.lookup id with
  | none => rfl
  | some o' =>
    obtain ⟨o, ho, -⟩ := h id o' ho'
    rw [hid] at ho
    cases ho

theorem uncrossedBut (h : OldLimits s s') {id : ℕ} (hs : UncrossedBut id s) : UncrossedBut id s' := by
  intro i j a' b' hi hj ha' hb' hcrosses
  obtain ⟨a, ha, haprice⟩ := h i a' ha'
  obtain ⟨b, hb, hbprice⟩ := h j b' hb'
  exact hs i j a b hi hj ha hb (hcrosses.of_same haprice hbprice)

theorem uncrossed (h : OldLimits s s') (hs : Uncrossed s) : Uncrossed s' := by
  intro i j a' b' ha' hb' hcrosses
  obtain ⟨a, ha, haprice⟩ := h i a' ha'
  obtain ⟨b, hb, hbprice⟩ := h j b' hb'
  exact hs i j a b ha hb (hcrosses.of_same haprice hbprice)

theorem found (h : OldLimits s s') (hs : ∀ id o, s.limitOrders.lookup id = some o → o.Found) :
    ∀ id o, s'.limitOrders.lookup id = some o → o.Found := by
  intro id o' ho'
  obtain ⟨o, ho, hprice⟩ := h id o' ho'
  unfold LimitOrder.Found
  rw [hprice]
  exact hs id o ho

end OldLimits

/-- What does not create limit orders only takes from the book. -/
theorem Posting.oldLimits {L : Licence} {s s' : Books} {v : ℕ → ℤ} (h : Posting L s v s')
    (hL : ¬ L.orders) : OldLimits s s' := by
  cases h with
  | paid h => exact .of_eq (by rw [h.rest])
  | createLimit hL' => exact absurd hL' hL
  | reduceLimit h =>
    intro id o' ho'
    rw [Index.lookup_modify] at ho'
    split at ho'
    · next hid =>
      rw [h] at ho'
      cases ho'
      rw [hid]
      exact ⟨_, h, rfl⟩
    · exact ⟨o', ho', rfl⟩
  | removeLimit h =>
    intro id o' ho'
    rw [Index.lookup_erase] at ho'
    split at ho'
    · cases ho'
    · exact ⟨o', ho', rfl⟩
  | _ => exact .of_eq rfl

theorem Path.oldLimits {L : Licence} {s s' : Books} (h : Path L s s') (hL : ¬ L.orders) :
    OldLimits s s' := by
  induction h with
  | refl => exact .of_eq rfl
  | posting hfirst _ ih => exact (hfirst.oldLimits hL).trans ih
  | beside hfirst _ ih => exact (OldLimits.of_eq hfirst.limitOrders).trans ih

theorem Postings.oldLimits {L : Licence} {s s' : Books} {v : ℕ → ℤ} (h : Postings L s v s')
    (hL : ¬ L.orders) : OldLimits s s' :=
  (Path.of_postings h).oldLimits hL

/-! ### Matching a new order -/

/-- Everything is allowed but to create limit orders. -/
def Licence.noOrders : Licence := ⟨False, True, fun _ => True⟩

theorem Licence.noOrders_keeps {s : Books} (hs : Sound s) : Licence.noOrders.Keeps s :=
  ⟨hs, fun hL => absurd trivial hL⟩

/-- An order that sells all it has is gone. -/
theorem LimitFill.filled_of_all {id : ℕ} {o : LimitOrder} {pays : Asset} {filled : Bool} {s s' : Books}
    (h : LimitFill id o pays s filled s') (hall : pays = o.amountForSale) : filled = true := by
  cases h with
  | all => rfl
  | part hpart => exact absurd hall hpart
  | culled => rfl

theorem fillLimitOrder_all {id : ℕ} {o : LimitOrder} {pays receives : Asset} {cull filled : Bool}
    {s s' : Books} (ho : s.limitOrders.lookup id = some o) (hall : pays = o.amountForSale)
    (h : fillLimitOrder id pays receives cull s = .ok filled s') : filled = true := by
  obtain ⟨o', s₁, ho', -, -, -, hfill⟩ := fillLimitOrder_ok h
  rw [ho] at ho'
  cases ho'
  exact hfill.filled_of_all hall

/-- One of two orders that are matched is filled, and what is filled is gone. -/
theorem Matched.removes {usdId coreId : ℕ} {usd coreOrder : LimitOrder} {receives pays : Asset}
    {filled : Bool × Bool} {s s₁ s' : Books}
    (h : Matched usdId coreId usd coreOrder receives pays filled s s₁ s') :
    (filled.1 = true ∨ filled.2 = true) ∧
      (filled.1 = true → s'.limitOrders.lookup usdId = none) ∧
      (filled.2 = true → s'.limitOrders.lookup coreId = none) := by
  have hfirst := fillLimitOrder_lookup h.usd_lookup h.first
  have hsecond := fillLimitOrder_lookup h.core_lookup h.second
  refine ⟨?_, ?_, ?_⟩
  · rcases h.usedUp with hall | hall
    · exact .inl (fillLimitOrder_all h.usd_lookup hall h.first)
    · exact .inr (fillLimitOrder_all h.core_lookup hall h.second)
  · intro hfilled
    rw [hsecond, if_neg h.ids_ne.symm, hfirst, if_pos rfl, if_pos hfilled]
  · intro hfilled
    rw [hsecond, if_pos rfl, if_pos hfilled]

/-- **The loop of `apply_order`**: at its end the new order is gone, or all orders that it went
through are. -/
theorem matchOrders_removes {orderId : ℕ} {ids : List ℕ} {s s' : Books} {u : Unit} (hs : Sound s)
    (h : matchOrders orderId ids s = .ok u s') :
    s'.limitOrders.lookup orderId = none ∨ ∀ id ∈ ids, s'.limitOrders.lookup id = none := by
  induction ids generalizing s with
  | nil =>
    right
    intro id hid
    cases hid
  | cons id ids ih =>
    unfold matchOrders at h
    rw [get_bind] at h
    obtain ⟨old, hold, h⟩ := require_bind_eq_ok.mp h
    obtain ⟨⟨newFilled, oldFilled⟩, s₁, hmatch, h⟩ := bind_eq_ok.mp h
    obtain ⟨usd, receives, pays, s₂, hmatched⟩ := matchLimitOrders_ok hs hold hmatch
    obtain ⟨hone, hnew, hgone⟩ := hmatched.removes
    simp only at h
    split at h
    · next hgoes =>
      -- only the old order was filled: the loop goes on
      have hs₁ : Sound s₁ := (postings_matchLimitOrders (L := .noOrders) hs hold hmatch).sound hs
      have hrest := (postings_matchOrders (Licence.noOrders_keeps hs₁) h).oldLimits not_false
      rcases ih hs₁ h with hnone | hall
      · exact .inl hnone
      · right
        intro id' hid'
        rcases List.mem_cons.mp hid' with rfl | hid'
        · exact hrest.gone (hgone hgoes.2)
        · exact hall id' hid'
    · next hstops =>
      -- the new order was filled
      obtain ⟨-, rfl⟩ := pure_eq_ok.mp h
      refine .inl (hnew ?_)
      by_contra hunfilled
      exact hstops ⟨Bool.eq_false_of_not_eq_true hunfilled, hone.resolve_left hunfilled⟩

theorem matchNewOrder_uncrosses {orderId : ℕ} {order : LimitOrder} {s s' : Books} {u : Unit}
    (hs : Sound s) (horder : order.Sound)
    (hold : ∀ o, s.limitOrders.lookup orderId = some o → o.sellPrice = order.sellPrice)
    (hfound : ∀ id o, s.limitOrders.lookup id = some o → o.Found) (hbut : UncrossedBut orderId s)
    (h : matchNewOrder orderId order.sellPrice s = .ok u s') : Uncrossed s' := by
  unfold matchNewOrder at h
  rw [get_bind] at h
  obtain ⟨highest, hmax, h⟩ := lift_bind_eq_ok.mp h
  have hlimits := (postings_matchOrders (Licence.noOrders_keeps hs) h).oldLimits not_false
  rcases matchOrders_removes hs h with hnone | hall
  · exact (hlimits.uncrossedBut hbut).uncrossed hnone
  -- what crosses the new order was on the list, and is gone
  have hnew : ∀ j b, s'.limitOrders.lookup j = some b → ¬ order.Crosses b := by
    intro j b' hb' hcrosses
    obtain ⟨b, hb, hprice⟩ := hlimits j b' hb'
    have hmem := (hcrosses.of_same rfl hprice).mem_limitsBetween horder (hs.limits j b hb)
      (hfound j b hb) hb hmax
    rw [hall j hmem] at hb'
    cases hb'
  have hsame : ∀ a, s'.limitOrders.lookup orderId = some a → a.sellPrice = order.sellPrice := by
    intro a' ha'
    obtain ⟨a, ha, hprice⟩ := hlimits orderId a' ha'
    exact hprice.trans (hold a ha)
  have hs' := (postings_matchOrders (Licence.noOrders_keeps hs) h).sound hs
  intro i j a b ha hb hcrosses
  by_cases hi : i = orderId
  · subst hi
    exact hnew j b hb (hcrosses.of_same (hsame a ha) rfl)
  by_cases hj : j = orderId
  · subst hj
    have hsymm := (hs'.limits i a ha).crosses_symm (hs'.limits j b hb) hcrosses
    exact hnew i a ha (hsymm.of_same (hsame b hb) rfl)
  · exact hlimits.uncrossedBut hbut i j a b hi hj ha hb hcrosses

/-- **`apply_order`** leaves a book that is not crossed. -/
theorem applyOrder_uncrosses {orderId : ℕ} {order : LimitOrder} {allow filled : Bool} {s s' : Books}
    (hs : Sound s) (ho : s.limitOrders.lookup orderId = some order)
    (hfound : ∀ id o, s.limitOrders.lookup id = some o → o.Found) (hbut : UncrossedBut orderId s)
    (h : applyOrder orderId allow s = .ok filled s') : Uncrossed s' := by
  unfold applyOrder at h
  rw [get_bind] at h
  obtain ⟨order', ho', h⟩ := require_bind_eq_ok.mp h
  rw [ho] at ho'
  cases ho'
  obtain ⟨receives, -, h⟩ := lift_bind_eq_ok.mp h
  obtain ⟨-, -, h⟩ := require_bind_eq_ok.mp h
  obtain ⟨-, -, h⟩ := require_bind_eq_ok.mp h
  obtain ⟨calledSell, s₁, hsell, h⟩ := bind_eq_ok.mp h
  obtain ⟨calledReceive, s₂, hreceive, h⟩ := bind_eq_ok.mp h
  -- margin calls before the order is matched
  have hkeeps := Licence.noOrders_keeps hs
  have h₁ := postings_checkCallOrders hkeeps hsell
  have h₂ := h₁.trans (postings_checkCallOrders (h₁.keeps hkeeps) hreceive)
  have hold₂ := h₂.oldLimits not_false
  unfold applyUncalledOrder at h
  rw [get_bind] at h
  split at h
  · next hcalled =>
    obtain ⟨-, rfl⟩ := pure_eq_ok.mp h
    exact (hold₂.uncrossedBut hbut).uncrossed hcalled.2
  obtain ⟨_, s₃, hmatch, h⟩ := bind_eq_ok.mp h
  obtain ⟨_, s₄, hsell', h⟩ := bind_eq_ok.mp h
  obtain ⟨_, s₅, hreceive', h⟩ := bind_eq_ok.mp h
  have hs₂ := h₂.sound hs
  have hsame : ∀ o, s₂.limitOrders.lookup orderId = some o → o.sellPrice = order.sellPrice := by
    intro o₂ ho₂
    obtain ⟨o, ho', hprice⟩ := hold₂ orderId o₂ ho₂
    rw [ho] at ho'
    cases ho'
    exact hprice
  have huncrossed := matchNewOrder_uncrosses hs₂ (hs.limits orderId order ho) hsame
    (hold₂.found hfound) (hold₂.uncrossedBut hbut) hmatch
  -- and after it
  have hs₃ : Sound s₃ := by
    unfold matchNewOrder at hmatch
    rw [get_bind] at hmatch
    obtain ⟨highest, -, hmatch⟩ := lift_bind_eq_ok.mp hmatch
    exact (postings_matchOrders (Licence.noOrders_keeps hs₂) hmatch).sound hs₂
  have h₄ := postings_checkCallOrders (Licence.noOrders_keeps hs₃) hsell'
  have h₅ := h₄.trans (postings_checkCallOrders (Licence.noOrders_keeps (h₄.sound hs₃)) hreceive')
  have h₆ := h₅.trans (postings_cullNewOrder h)
  exact (h₆.oldLimits not_false).uncrossed huncrossed

/-! ### Runs -/

/-- A limit order is created at a price of at most `price::max`. -/
def Event.Findable : Event → Prop
  | operation (.limitOrderCreate op) =>
    op.amountToSell.amount ≤ maxShareSupply * op.minToReceive.amount
  | _ => True

/-- A book in which every order can be found, and that is not crossed. -/
structure OpenBook (s : Books) : Prop extends Regular s where
  found : ∀ id o, s.limitOrders.lookup id = some o → o.Found
  uncrossed : Uncrossed s

theorem Genesis.openBook {s : Books} (h : Genesis s) : OpenBook s := by
  have hnone : ∀ id, s.limitOrders.lookup id = none := by
    intro id
    rw [h.limitOrders]
    rfl
  refine { h.solvent.toRegular with found := ?_, uncrossed := ?_ }
  · intro id o ho
    rw [hnone] at ho
    cases ho
  · intro i j a b ha
    rw [hnone] at ha
    cases ha

/-- **`limit_order_create`** keeps the book uncrossed. -/
theorem LimitOrderCreate.uncrossed {S : Settings} {op : LimitOrderCreate} {s s' : Books} {u : Unit}
    (hs : OpenBook s) (hfindable : (Event.operation (.limitOrderCreate op)).Findable)
    (h : (Operation.limitOrderCreate op).run S s = .ok u s') :
    Uncrossed s' ∧ ∀ id o, s'.limitOrders.lookup id = some o → o.Found := by
  obtain ⟨⟨hne, -, hsell, hreceive⟩, h⟩ := assert_bind_eq_ok.mp h
  obtain ⟨fee, v, s₁, filled, s₂, hpaid, happly, hlast, -⟩ := limitOrderCreate_ok h
  have hlimits : s₁.limitOrders = s.limitOrders := by
    rw [hpaid.rest]
  have hsound := LimitOrderCreate.newOrder_sound fee hne hsell hreceive
  have hcreate := (Postings.paid (L := .all) hpaid).trans (.single (.createLimit trivial hsound))
  have hs₁ := hcreate.sound hs.toSound
  -- the new order and the orders of the old book
  have hlookup : ∀ id, (s₁.limitOrders.create (op.newOrder fee)).lookup id =
      if id = s₁.limitOrders.next then some (op.newOrder fee) else s.limitOrders.lookup id := by
    intro id
    rw [Index.lookup_create, hlimits]
  have hfound : ∀ id o, (s₁.limitOrders.create (op.newOrder fee)).lookup id = some o → o.Found := by
    intro id o ho
    rw [hlookup] at ho
    split at ho
    · cases ho
      exact hfindable
    · exact hs.found id o ho
  have hbut : UncrossedBut s₁.limitOrders.next
      { s₁ with limitOrders := s₁.limitOrders.create (op.newOrder fee) } := by
    intro i j a b hi hj ha hb
    rw [hlookup, if_neg hi] at ha
    rw [hlookup, if_neg hj] at hb
    exact hs.uncrossed i j a b ha hb
  have huncrossed := applyOrder_uncrosses hs₁ (by rw [hlookup, if_pos rfl]) hfound hbut happly
  have hlast' : OldLimits s₂ s' := .of_eq (by rw [hlast.rest])
  have hrest := (postings_applyOrder (Licence.noOrders_keeps hs₁) happly).oldLimits not_false
  exact ⟨hlast'.uncrossed huncrossed, (hrest.trans hlast').found hfound⟩

theorem Event.CreatesLimit.exists_create {e : Event} (h : e.CreatesLimit) :
    ∃ op, e = .operation (.limitOrderCreate op) := by
  unfold Event.CreatesLimit at h
  split at h
  · next op => exact ⟨op, rfl⟩
  · cases h

/-- **Events keep the book uncrossed.** -/
theorem Event.openBook {S : Settings} {e : Event} {s s' : Books} {u : Unit} (hs : OpenBook s)
    (hfits : s.Fits) (hfindable : e.Findable) (h : e.run S s = .ok u s') : OpenBook s' := by
  have hregular := Event.regular hs.toRegular hfits h
  by_cases hcreates : e.CreatesLimit
  · obtain ⟨op, rfl⟩ := hcreates.exists_create
    obtain ⟨huncrossed, hfound⟩ := LimitOrderCreate.uncrossed hs hfindable h
    exact { hregular with found := hfound, uncrossed := huncrossed }
  · have hpath := Event.path (L := .noOrders) hs.toRegular (fun hL => absurd trivial hL) hfits
      (Event.licensed_of_excess trivial (fun hc => absurd hc hcreates) fun _ _ _ _ _ => trivial) h
    have hold := hpath.oldLimits not_false
    exact { hregular with found := hold.found hs.found, uncrossed := hold.uncrossed hs.uncrossed }

theorem Beside.openBook {s s' : Books} (h : Beside s s') (hs : OpenBook s) : OpenBook s' := by
  have hold : OldLimits s s' := .of_eq h.limitOrders
  exact { h.regular hs.toRegular with
    found := hold.found hs.found, uncrossed := hold.uncrossed hs.uncrossed }

/-- **The book is never crossed** in a run whose limit orders can all be found. -/
theorem book_uncrossed {S : Settings} {s₀ s : Books} (hgenesis : Genesis s₀)
    (h : Steps S (fun _ e => e.Findable) Beside s₀ s) : Uncrossed s := by
  obtain ⟨hs, -⟩ := h.keep (fun hC he hfits hs => Event.openBook hs hfits hC he) Beside.openBook
    hgenesis.fits hgenesis.openBook
  exact hs.uncrossed

section Example

/-- The first account sells the bitasset for core. -/
private def sellBitasset (amount minToReceive : ℤ) (hamount : FitsShare amount := by decide)
    (hmin : FitsShare minToReceive := by decide) : Event := .operation (.limitOrderCreate
  { fee := ⟨20, core⟩
    seller := 10
    amountToSell := ⟨amount, 1⟩
    minToReceive := ⟨minToReceive, core⟩
    expiration := 1600000000
    fillOrKill := false
    amountToSell_fits := hamount
    minToReceive_fits := hmin })

/-- The second account buys 10 of it, for 1000 at most. -/
private def buyBitasset : Event := .operation (.limitOrderCreate
  { fee := ⟨20, core⟩
    seller := 11
    amountToSell := ⟨1000, core⟩
    minToReceive := ⟨10, 1⟩
    expiration := 1600000000
    fillOrKill := false })

/-- The first order is sold, and the second one stays. -/
theorem book_uncrossed_match : Uncrossed (afterEvents [buyBitasset, sellBitasset 100 200]) ∧
    ((afterEvents [buyBitasset, sellBitasset 100 200]).limitOrders.entries.map fun e =>
      (e.1, e.2.forSale)) = [(1, 800)] := by
  have hsteps : Steps smallSettings (fun _ e => e.Findable) Beside smallChain
      (afterEvents [buyBitasset, sellBitasset 100 200]) := by
    refine ((Steps.refl smallChain).afterEvents ?_ ?_ ?_).afterEvents ?_ ?_ ?_
    · exact show (100 : ℤ) ≤ maxShareSupply * 200 by decide
    · decide +kernel
    · exact fits_afterEvents (by decide +kernel) (by decide +kernel)
    · exact show (1000 : ℤ) ≤ maxShareSupply * 10 by decide
    · decide +kernel
    · exact fits_afterEvents (by decide +kernel) (by decide +kernel)
  exact ⟨book_uncrossed genesis_smallChain hsteps, by decide +kernel⟩

/-- Ten million of the bitasset for one of core. -/
private def publishLowPrice : Event := .operation (.assetPublishFeed
  { fee := ⟨20, core⟩
    publisher := 11
    assetId := 1
    feed := ⟨⟨⟨10 ^ 7, 1⟩, ⟨1, core⟩⟩, ⟨⟨10 ^ 7, 1⟩, ⟨1, core⟩⟩, 1750, 1500⟩ })

private def borrowHuge : Event := .operation (.callOrderUpdate
  { fee := ⟨20, core⟩
    fundingAccount := 10
    deltaCollateral := ⟨4 * 10 ^ 11, core⟩
    deltaDebt := ⟨2 * 10 ^ 18, 1⟩ })

/-- The price of `2 * 10 ^ 18` to 1 is above `price::max`: whoever buys the bitasset does not find the
order. -/
theorem not_book_uncrossed :
    ¬ ∀ (S : Settings) (s₀ s : Books), Genesis s₀ → hardfork555Time < s₀.headTime →
      Steps S (fun _ _ => True) Beside s₀ s → Uncrossed s := by
  intro hall
  have hsteps : Steps smallSettings (fun _ _ => True) Beside smallChain
      (afterEvents [buyBitasset, sellBitasset (2 * 10 ^ 18) 1, borrowHuge, publishLowPrice,
        setProducer]) := by
    refine (((((Steps.refl smallChain).afterEvents trivial ?_ ?_).afterEvents trivial ?_ ?_).afterEvents
      trivial ?_ ?_).afterEvents trivial ?_ ?_).afterEvents trivial ?_ ?_
    · decide +kernel
    · exact fits_afterEvents (by decide +kernel) (by decide +kernel)
    · decide +kernel
    · exact fits_afterEvents (by decide +kernel) (by decide +kernel)
    · decide +kernel
    · exact fits_afterEvents (by decide +kernel) (by decide +kernel)
    · decide +kernel
    · exact fits_afterEvents (by decide +kernel) (by decide +kernel)
    · decide +kernel
    · exact fits_afterEvents (by decide +kernel) (by decide +kernel)
  have huncrossed := hall smallSettings smallChain _ genesis_smallChain (by decide) hsteps
  have hsell : ((afterEvents [buyBitasset, sellBitasset (2 * 10 ^ 18) 1, borrowHuge, publishLowPrice,
      setProducer]).limitOrders.lookup 0).map LimitOrder.sellPrice =
        some ⟨⟨2 * 10 ^ 18, 1⟩, ⟨1, core⟩⟩ := by decide +kernel
  have hbuy : ((afterEvents [buyBitasset, sellBitasset (2 * 10 ^ 18) 1, borrowHuge, publishLowPrice,
      setProducer]).limitOrders.lookup 1).map LimitOrder.sellPrice =
        some ⟨⟨1000, core⟩, ⟨10, 1⟩⟩ := by decide +kernel
  obtain ⟨a, ha, haprice⟩ := Option.map_eq_some_iff.mp hsell
  obtain ⟨b, hb, hbprice⟩ := Option.map_eq_some_iff.mp hbuy
  refine huncrossed 0 1 a b ha hb ?_
  unfold LimitOrder.Crosses
  rw [haprice, hbprice]
  decide +kernel

end Example

end FinChain.Ledger
