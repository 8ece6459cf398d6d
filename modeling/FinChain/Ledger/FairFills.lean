import FinChain.Ledger.FairMatch
import FinChain.Ledger.FillHistory

/-!
# Something for nothing

Amounts are rounded down, so an order that is small can be filled and receive nothing. The code knows
this and cancels an order that is worth nothing at its own price (`maybe_cull_small_order`). But an order
is filled at the price of another one, or for an amount that is less than all it has, and it is not
always culled before it is filled again. What remains of a new order after a match is matched with the
next old order, at the price of that order; what remains of it after all matches meets the margin calls;
and a call order with a small debt takes from a limit order less than is worth anything to it.

Whether a round is worth something to both sides can be seen before it (`Note.Worthwhile`), and all
rounds of a run are if and only if nobody gives something for nothing in it (`fills_fair_iff`).
-/

namespace FinChain.Ledger

open Exec History

namespace History

/-- Nobody gives something for nothing. -/
def Note.Fair : Note → Prop
  | limitFill _ pays receives => 0 < pays.amount → 0 < receives.amount
  | callFill _ pays receives => 0 < pays.amount → 0 < receives.amount
  | matching _ _ => True
  | marginCall _ _ => True

/-- A round in which the smaller side is worth something: at the price of the old order, or of the limit
order, it is at least one unit of what the other side gives. -/
def Note.Worthwhile : Note → Prop
  | limitFill _ _ _ => True
  | callFill _ _ _ => True
  | matching new old =>
    if new.forSale ≤ old.forSale * old.sellPrice.quote.amount / old.sellPrice.base.amount then
      old.sellPrice.quote.amount ≤ new.forSale * old.sellPrice.base.amount
    else old.sellPrice.base.amount ≤ old.forSale * old.sellPrice.quote.amount
  | marginCall call limit =>
    limit.sellPrice.base.amount ≤ min call.debt limit.forSale * limit.sellPrice.quote.amount

instance : DecidablePred Note.Fair
  | .limitFill _ pays receives => inferInstanceAs (Decidable (0 < pays.amount → 0 < receives.amount))
  | .callFill _ pays receives => inferInstanceAs (Decidable (0 < pays.amount → 0 < receives.amount))
  | .matching _ _ => inferInstanceAs (Decidable True)
  | .marginCall _ _ => inferInstanceAs (Decidable True)

instance : DecidablePred Note.Worthwhile
  | .limitFill _ _ _ => inferInstanceAs (Decidable True)
  | .callFill _ _ _ => inferInstanceAs (Decidable True)
  | .matching new old => inferInstanceAs (Decidable
      (if new.forSale ≤ old.forSale * old.sellPrice.quote.amount / old.sellPrice.base.amount then
        old.sellPrice.quote.amount ≤ new.forSale * old.sellPrice.base.amount
      else old.sellPrice.base.amount ≤ old.forSale * old.sellPrice.quote.amount))
  | .marginCall call limit => inferInstanceAs (Decidable
      (limit.sellPrice.base.amount ≤ min call.debt limit.forSale * limit.sellPrice.quote.amount))

/-- Nobody gives something for nothing exactly if each round is worthwhile. -/
def FairIfWorthwhile (notes : List Note) : Prop :=
  (∀ n ∈ notes, n.Fair) ↔ ∀ n ∈ notes, n.Worthwhile

theorem joins_fairIfWorthwhile : Joins FairIfWorthwhile where
  nil := iff_of_true (fun n hn => absurd hn List.not_mem_nil) fun n hn => absurd hn List.not_mem_nil
  append {l l'} h h' := by
    unfold FairIfWorthwhile
    rw [List.forall_mem_append, List.forall_mem_append]
    exact and_congr h h'

end History

/-! ### Amounts -/

theorem ediv_pos_iff_le {x y : ℤ} (hy : 0 < y) : 0 < x / y ↔ y ≤ x := by
  rw [← Int.add_one_le_iff, zero_add, Int.le_ediv_iff_mul_le hy, one_mul]

namespace LimitOrder.Sound

variable {o : LimitOrder}

theorem base_pos (ho : o.Sound) : 0 < o.sellPrice.base.amount := ho.forSale_pos.trans_le ho.forSale_le

theorem forSale_small (ho : o.Sound) : o.forSale < 2 ^ 64 := ho.forSale_le.trans_lt ho.base_small

end LimitOrder.Sound

/-- **A match** is fair exactly if it is worthwhile. -/
theorem exchanged_fair_iff {new old : LimitOrder} {receives pays : Asset} (hnew : new.Sound)
    (hold : old.Sound)
    (h : exchanged new.amountForSale old.amountForSale old.sellPrice = .ok (receives, pays)) :
    ((0 < pays.amount → 0 < receives.amount) ∧ (0 < receives.amount → 0 < pays.amount)) ↔
      (Note.matching new old).Worthwhile := by
  have hbase := hold.base_pos
  have hquote := hold.quote_pos
  unfold exchanged at h
  obtain ⟨wanted, hwanted, h₁⟩ := except_bind_eq_ok.mp h
  obtain rfl := hold.mul_of_base (a := old.amountForSale) rfl hold.forSale_pos.le hold.forSale_small
    hwanted
  obtain ⟨fits, hfits, h₂⟩ := except_bind_eq_ok.mp h₁
  obtain ⟨hid, hle⟩ := Asset.le_eq_ok hfits
  change fits = true ↔ new.forSale ≤ old.forSale * old.sellPrice.quote.amount / old.sellPrice.base.amount
    at hle
  rw [Note.Worthwhile]
  cases fits with
  | true =>
    -- the new order is the smaller one
    rw [if_pos rfl] at h₂
    obtain ⟨received, hreceived, h₃⟩ := except_bind_eq_ok.mp h₂
    cases h₃
    rw [if_pos (hle.mp rfl), ← ediv_pos_iff_le hquote,
      hold.mul_of_quote hid hnew.forSale_pos.le hnew.forSale_small hreceived]
    have hforSale := hnew.forSale_pos
    exact ⟨fun hfair => hfair.1 hforSale, fun hpos => ⟨fun _ => hpos, fun _ => hforSale⟩⟩
  | false =>
    rw [if_neg Bool.false_ne_true] at h₂
    obtain ⟨paid, hpaid, h₃⟩ := except_bind_eq_ok.mp h₂
    cases h₃
    rw [if_neg fun hfit => Bool.false_ne_true (hle.mpr hfit), ← ediv_pos_iff_le hbase,
      hold.mul_of_base (a := old.amountForSale) rfl hold.forSale_pos.le hold.forSale_small hpaid]
    have hforSale := hold.forSale_pos
    exact ⟨fun hfair => hfair.2 hforSale, fun hpos => ⟨fun _ => hforSale, fun _ => hpos⟩⟩

/-- **A margin call** is fair to the limit order exactly if it is worthwhile, and to the call order in
any case. -/
theorem marginCallAmounts_fair_iff {call : CallOrder} {limit : LimitOrder} {receives pays : Asset}
    {callFilled limitFilled : Bool} (hcall : call.Sound) (hlimit : limit.Sound)
    (h : marginCallAmounts call.getDebt limit.amountForSale limit.sellPrice =
      .ok (receives, pays, callFilled, limitFilled)) :
    0 < receives.amount ∧ (0 < pays.amount ↔ (Note.marginCall call limit).Worthwhile) := by
  have hreceives : receives.amount = min call.debt limit.forSale := marginCallAmounts_ok h
  have hdebt := hcall.debt_pos
  have hforSale := hlimit.forSale_pos
  have hpos : 0 < receives.amount := by
    rw [hreceives]
    exact lt_min hdebt hforSale
  have hsmall : receives.amount < 2 ^ 64 := by
    rw [hreceives]
    exact (min_le_right _ _).trans_lt hlimit.forSale_small
  refine ⟨hpos, ?_⟩
  have hpays : receives.assetId = limit.sellPrice.base.assetId ∧
      receives.mul limit.sellPrice = .ok pays := by
    unfold marginCallAmounts at h
    obtain ⟨filled, hfilled, h₁⟩ := except_bind_eq_ok.mp h
    have hid : call.getDebt.assetId = limit.amountForSale.assetId := by
      unfold Asset.ge at hfilled
      cases hlt : call.getDebt.lt limit.amountForSale with
      | error e =>
        rw [hlt] at hfilled
        cases hfilled
      | ok less => exact (Asset.lt_eq_ok hlt).1
    cases filled with
    | true =>
      rw [if_pos rfl] at h₁
      obtain ⟨paid, hpaid, h₂⟩ := except_bind_eq_ok.mp h₁
      cases h₂
      exact ⟨rfl, hpaid⟩
    | false =>
      rw [if_neg Bool.false_ne_true] at h₁
      obtain ⟨paid, hpaid, h₂⟩ := except_bind_eq_ok.mp h₁
      cases h₂
      exact ⟨hid, hpaid⟩
  obtain ⟨hid, hmul⟩ := hpays
  rw [hlimit.mul_of_base hid hpos.le hsmall hmul]
  change 0 < receives.amount * limit.sellPrice.quote.amount / limit.sellPrice.base.amount ↔ _
  rw [ediv_pos_iff_le hlimit.base_pos, hreceives]
  rfl

namespace History

section Rounds

variable {s : Books}

theorem adds_fillLimitOrder_bind {α : Type} {id : ℕ} {pays receives : Asset} {cull : Bool}
    {f : Bool → MarketM α} {P : List Note → Prop}
    (hf : ∀ filled s', Ledger.fillLimitOrder id pays receives cull s = .ok filled s' →
      Adds (f filled) s' fun new => P (new ++ [.limitFill id pays receives])) :
    Adds (fillLimitOrder id pays receives cull >>= f) s P := by
  change Adds (note (.limitFill id pays receives) >>= fun _ =>
    silent (Ledger.fillLimitOrder id pays receives cull) >>= f) s P
  exact adds_note_bind (adds_silent_bind hf)

theorem adds_fillCallOrder_bind {α : Type} {id : ℕ} {pays receives : Asset} {f : Bool → MarketM α}
    {P : List Note → Prop}
    (hf : ∀ filled s', Ledger.fillCallOrder id pays receives s = .ok filled s' →
      Adds (f filled) s' fun new => P (new ++ [.callFill id pays receives])) :
    Adds (fillCallOrder id pays receives >>= f) s P := by
  change Adds (note (.callFill id pays receives) >>= fun _ =>
    silent (Ledger.fillCallOrder id pays receives) >>= f) s P
  exact adds_note_bind (adds_silent_bind hf)

theorem adds_matchLimitOrders {usdId coreId : ℕ} {old : LimitOrder} (hs : Sound s)
    (hold : s.limitOrders.lookup coreId = some old) :
    Adds (matchLimitOrders usdId coreId old.sellPrice) s FairIfWorthwhile := by
  refine adds_get_bind (adds_require_bind fun usd husd => adds_require_bind fun old' hold' => ?_)
  rw [hold] at hold'
  cases hold'
  refine adds_note_bind (adds_lift_bind fun ⟨receives, pays⟩ hamounts => ?_)
  refine adds_fillLimitOrder_bind fun usdFilled s₁ _ => adds_fillLimitOrder_bind fun coreFilled s₂ _ => ?_
  refine adds_pure ?_ _
  have hiff := exchanged_fair_iff (hs.limits usdId usd husd) (hs.limits coreId old hold) hamounts
  unfold FairIfWorthwhile
  simp only [List.nil_append, List.cons_append, List.forall_mem_cons, List.not_mem_nil, false_implies,
    implies_true, Note.Fair, and_true]
  rw [and_comm, hiff]
  exact ⟨fun hworth => ⟨trivial, trivial, hworth⟩, fun h => h.2.2⟩

theorem adds_executeMarginCall {call limit : ℕ} {callOrder : CallOrder} {limitOrder : LimitOrder}
    {filledLimit : Bool} (hcall : callOrder.Sound) (hlimit : limitOrder.Sound) :
    Adds (note (.marginCall callOrder limitOrder) >>= fun _ => executeMarginCall call limit
      callOrder.getDebt limitOrder.amountForSale limitOrder.sellPrice filledLimit) s
      FairIfWorthwhile := by
  refine adds_note_bind (adds_lift_bind fun ⟨receives, pays, callFilled, limitFilled⟩ hamounts => ?_)
  refine adds_fillCallOrder_bind fun _ s₁ _ => adds_fillLimitOrder_bind fun _ s₂ _ => ?_
  refine adds_pure ?_ _
  obtain ⟨hreceives, hiff⟩ := marginCallAmounts_fair_iff hcall hlimit hamounts
  unfold FairIfWorthwhile
  simp only [List.nil_append, List.cons_append, List.forall_mem_cons, List.not_mem_nil, false_implies,
    implies_true, Note.Fair, and_true]
  constructor
  · rintro ⟨hpays, -⟩
    exact ⟨trivial, trivial, hiff.mp (hpays hreceives)⟩
  · rintro ⟨-, -, hworth⟩
    exact ⟨fun _ => hiff.mpr hworth, fun _ => hreceives⟩

end Rounds

/-! ### Whole runs -/

section Runs

variable {s : Books}

/-- Call orders that are settled pay for all their debt. -/
theorem adds_settleCallOrders {price : Price} {ids : List ℕ} {gathered : Asset} (hs : Sound s) :
    Adds (settleCallOrders price ids gathered) s FairIfWorthwhile := by
  induction ids generalizing s gathered with
  | nil => exact adds_pure joins_fairIfWorthwhile.nil _
  | cons id ids ih =>
    refine adds_get_bind (adds_require_bind fun o ho => adds_lift_bind fun pays hpays => ?_)
    refine adds_lift_bind fun gathered hgathered => adds_fillCallOrder_bind fun filled s₁ hfill => ?_
    refine adds_assert_bind fun _ => ?_
    have hdebt := (hs.calls id o ho).1.debt_pos
    have hs₁ : Sound s₁ :=
      (postings_fillCallOrder (L := .noOrders) hs ho hdebt.le le_rfl hfill).sound hs
    intro notes a r hrun
    obtain ⟨new, hnotes, hnew⟩ := ih hs₁ notes a r hrun
    refine ⟨new, hnotes, joins_fairIfWorthwhile.append hnew ?_⟩
    simp only [FairIfWorthwhile, List.forall_mem_singleton, Note.Fair, Note.Worthwhile, iff_true]
    exact fun _ => hdebt

theorem adds_globallySettleAsset {mia : ℕ} {price : Price} (hs : Sound s) :
    Adds (globallySettleAsset mia price) s FairIfWorthwhile := by
  refine adds_get_bind (adds_require_bind fun b hb => adds_assert_bind fun _ => ?_)
  refine adds_require_bind fun _ _ => adds_require_bind fun d hd => adds_lift_bind fun calls hcalls => ?_
  refine joins_fairIfWorthwhile.bind (erases_settleCallOrders _ _ _) (adds_settleCallOrders hs) ?_
  intro g s₁ _
  refine adds_lift_bind fun _ _ => adds_silent_bind fun _ s₂ _ => ?_
  exact adds_silent joins_fairIfWorthwhile.nil

theorem adds_checkForBlackswan {mia : ℕ} {enable : Bool} (hs : Sound s) :
    Adds (checkForBlackswan mia enable) s FairIfWorthwhile := by
  have hpure := fun b : Bool => adds_pure (s := s) (ε := LedgerError) joins_fairIfWorthwhile.nil b
  refine adds_get_bind ?_
  cases s.bitassets.lookup mia with
  | none => exact hpure false
  | some b =>
    refine Adds.ite (fun _ => hpure true) fun _ => Adds.ite (fun _ => hpure false) fun _ => ?_
    refine adds_lift_bind fun swan _ => ?_
    cases swan with
    | none => exact hpure false
    | some price =>
      refine adds_assert_bind fun _ => ?_
      refine joins_fairIfWorthwhile.bind (erases_globallySettleAsset _ _)
        (adds_globallySettleAsset hs) fun _ _ _ => ?_
      exact adds_pure joins_fairIfWorthwhile.nil _

theorem adds_marginCallRound {mia : ℕ} {b : BitassetData} {enable filledLimit called : Bool}
    {call limit : ℕ} (hs : Sound s) :
    Adds (marginCallRound mia b enable call limit filledLimit called) s FairIfWorthwhile := by
  refine adds_get_bind (adds_require_bind fun limitOrder hlimit => ?_)
  refine adds_require_bind fun callOrder hcall => adds_lift_bind fun _ _ => ?_
  refine Adds.ite (fun _ => adds_pure joins_fairIfWorthwhile.nil _) fun _ => ?_
  refine adds_lift_bind fun cost _ => adds_lift_bind fun swan _ => Adds.ite (fun _ => ?_) fun _ => ?_
  · refine adds_assert_bind fun _ => joins_fairIfWorthwhile.bind (erases_globallySettleAsset _ _)
      (adds_globallySettleAsset hs) fun _ _ _ => ?_
    exact adds_pure joins_fairIfWorthwhile.nil _
  · exact adds_executeMarginCall (hs.calls call callOrder hcall).1 (hs.limits limit limitOrder hlimit)

theorem adds_marginCallLoop {mia : ℕ} {b : BitassetData} {enable : Bool} {fuel : ℕ}
    {calls limits : List ℕ} {filledLimit called : Bool} (hs : Sound s) (hcalls : s.CallsIn mia calls) :
    Adds (marginCallLoop mia b enable fuel calls limits filledLimit called) s FairIfWorthwhile := by
  induction fuel generalizing s calls limits filledLimit called with
  | zero =>
    exact joins_fairIfWorthwhile.bind (erases_checkForBlackswan _ _) (adds_checkForBlackswan hs)
      fun _ _ _ => adds_pure joins_fairIfWorthwhile.nil _
  | succ fuel ih =>
    refine joins_fairIfWorthwhile.bind (erases_checkForBlackswan _ _) (adds_checkForBlackswan hs) ?_
    intro settled s₁ hswan
    have hfirst := postings_checkForBlackswan (Licence.noOrders_keeps hs) hswan
    have hs₁ := hfirst.sound hs
    have hcalls₁ := hcalls.keep hfirst.oldCalls
    match settled, calls, limits with
    | true, _, _ => exact adds_pure joins_fairIfWorthwhile.nil _
    | false, [], _ => exact adds_pure joins_fairIfWorthwhile.nil _
    | false, _ :: _, [] => exact adds_pure joins_fairIfWorthwhile.nil _
    | false, call :: calls, limit :: limits =>
      refine joins_fairIfWorthwhile.bind (erases_marginCallRound _ _ _ _ _ _ _)
        (adds_marginCallRound hs₁) fun round s₂ hround => ?_
      cases round with
      | stop result => exact adds_pure joins_fairIfWorthwhile.nil _
      | called filledCall filledLimit' =>
        have hone : s₁.CallsIn mia [call] :=
          fun id hid => hcalls₁ id (by rw [List.mem_singleton.mp hid]; exact List.mem_cons_self)
        have hsecond := postings_marginCallRound (Licence.noOrders_keeps hs₁) hone hround
        have hcalls₂ := hcalls₁.keep hsecond.oldCalls
        refine ih (hsecond.sound hs₁) fun id hid => hcalls₂ id ?_
        split at hid
        · exact List.mem_cons_of_mem _ hid
        · exact hid

/-- **`check_call_orders`**: what its run notes. -/
theorem adds_checkCallOrders {mia : ℕ} {enable : Bool} (hs : Sound s) :
    Adds (checkCallOrders mia enable) s FairIfWorthwhile := by
  refine adds_get_bind ?_
  cases s.bitassets.lookup mia with
  | none => exact adds_pure joins_fairIfWorthwhile.nil _
  | some b =>
    refine joins_fairIfWorthwhile.bind (erases_checkForBlackswan _ _) (adds_checkForBlackswan hs) ?_
    intro settled s₁ hswan
    have hs₁ := (postings_checkForBlackswan (Licence.noOrders_keeps hs) hswan).sound hs
    refine Adds.ite (fun _ => adds_pure joins_fairIfWorthwhile.nil _) fun _ => ?_
    refine Adds.ite (fun _ => adds_pure joins_fairIfWorthwhile.nil _) fun _ => ?_
    refine adds_get_bind (adds_lift_bind fun ⟨calls, limits⟩ hlists => ?_)
    refine Adds.ite (fun _ => adds_pure joins_fairIfWorthwhile.nil _) fun _ => ?_
    unfold Books.marginCalls at hlists
    obtain ⟨maxPrice, -, hlists₁⟩ := except_bind_eq_ok.mp hlists
    obtain ⟨minPrice, -, hlists₂⟩ := except_bind_eq_ok.mp hlists₁
    obtain ⟨calls', hcalls, hlists₃⟩ := except_bind_eq_ok.mp hlists₂
    cases hlists₃
    exact adds_marginCallLoop hs₁ (Books.callsIn_of_callsOf hs₁ hcalls)

theorem adds_matchOrders {orderId : ℕ} {ids : List ℕ} (hs : Sound s) :
    Adds (matchOrders orderId ids) s FairIfWorthwhile := by
  induction ids generalizing s with
  | nil => exact adds_pure joins_fairIfWorthwhile.nil _
  | cons id ids ih =>
    refine adds_get_bind (adds_require_bind fun old hold => ?_)
    refine joins_fairIfWorthwhile.bind (erases_matchLimitOrders _ _ _) (adds_matchLimitOrders hs hold) ?_
    intro ⟨newFilled, oldFilled⟩ s₁ hmatch
    refine Adds.ite (fun _ => ih ?_) fun _ => adds_pure joins_fairIfWorthwhile.nil _
    exact (postings_matchLimitOrders (L := .noOrders) hs hold hmatch).sound hs

/-- **`apply_order`**: what its run notes. -/
theorem adds_applyOrder {orderId : ℕ} {allow : Bool} (hs : Sound s) :
    Adds (applyOrder orderId allow) s FairIfWorthwhile := by
  -- the invariant passes each check for margin calls
  have hcheck : ∀ {mia : ℕ} {s₁ s₂ : Books} {called : Bool}, Sound s₁ →
      Ledger.checkCallOrders mia allow s₁ = .ok called s₂ → Sound s₂ :=
    fun hs₁ h => (postings_checkCallOrders (Licence.noOrders_keeps hs₁) h).sound hs₁
  refine adds_get_bind (adds_require_bind fun order horder => adds_lift_bind fun receives _ => ?_)
  refine adds_require_bind fun _ _ => adds_require_bind fun _ _ => ?_
  refine joins_fairIfWorthwhile.bind (erases_checkCallOrders _ _) (adds_checkCallOrders hs) ?_
  intro calledSell s₁ hsell
  have hs₁ := hcheck hs hsell
  refine joins_fairIfWorthwhile.bind (erases_checkCallOrders _ _) (adds_checkCallOrders hs₁) ?_
  intro calledReceive s₂ hreceive
  have hs₂ := hcheck hs₁ hreceive
  refine adds_get_bind (Adds.ite (fun _ => adds_pure joins_fairIfWorthwhile.nil _) fun _ => ?_)
  have hmatch : Adds (matchNewOrder orderId order.sellPrice) s₂ FairIfWorthwhile :=
    adds_get_bind (adds_lift_bind fun _ _ => adds_matchOrders hs₂)
  refine joins_fairIfWorthwhile.bind (erases_matchNewOrder _ _) hmatch fun _ s₃ hmatched => ?_
  have hs₃ : Sound s₃ := by
    unfold Ledger.matchNewOrder at hmatched
    rw [get_bind] at hmatched
    obtain ⟨highest, -, hmatched₁⟩ := lift_bind_eq_ok.mp hmatched
    exact (postings_matchOrders (Licence.noOrders_keeps hs₂) hmatched₁).sound hs₂
  refine joins_fairIfWorthwhile.bind (erases_checkCallOrders _ _) (adds_checkCallOrders hs₃) ?_
  intro _ s₄ hsell'
  have hs₄ := hcheck hs₃ hsell'
  refine joins_fairIfWorthwhile.bind (erases_checkCallOrders _ _) (adds_checkCallOrders hs₄) ?_
  intro _ s₅ _
  exact adds_silent joins_fairIfWorthwhile.nil

end Runs

/-- **When nobody gives something for nothing**: the fills of a run of `check_call_orders` or
`apply_order` are fair if and only if all its rounds are worthwhile. -/
theorem fills_fair_iff {s : Books} (hs : Sound s) :
    (∀ mia enable called s', Ledger.checkCallOrders mia enable s = .ok called s' →
      ∃ notes, checkCallOrders mia enable ⟨s, []⟩ = .ok called ⟨s', notes⟩ ∧
        ((∀ n ∈ notes, n.Fair) ↔ ∀ n ∈ notes, n.Worthwhile)) ∧
    ∀ orderId allow filled s', Ledger.applyOrder orderId allow s = .ok filled s' →
      ∃ notes, applyOrder orderId allow ⟨s, []⟩ = .ok filled ⟨s', notes⟩ ∧
        ((∀ n ∈ notes, n.Fair) ↔ ∀ n ∈ notes, n.Worthwhile) := by
  constructor
  · intro mia enable called s' h
    obtain ⟨notes, hnoted⟩ := (erases_checkCallOrders mia enable).exists_ok h []
    obtain ⟨new, hnew, hiff⟩ := adds_checkCallOrders hs [] _ _ hnoted
    obtain rfl : notes = new := hnew.trans (List.append_nil new)
    exact ⟨notes, hnoted, hiff⟩
  · intro orderId allow filled s' h
    obtain ⟨notes, hnoted⟩ := (erases_applyOrder orderId allow).exists_ok h []
    obtain ⟨new, hnew, hiff⟩ := adds_applyOrder hs [] _ _ hnoted
    obtain rfl : notes = new := hnew.trans (List.append_nil new)
    exact ⟨notes, hnoted, hiff⟩

/-! ### What culling is good for -/

section Example

/-- The first account sells one of core for some of asset 2. -/
private def sellOneCore (minToReceive : ℤ) (hmin : FitsShare minToReceive := by decide) : Event :=
  .operation (.limitOrderCreate
    { fee := ⟨20, core⟩
      seller := 10
      amountToSell := ⟨1, core⟩
      minToReceive := ⟨minToReceive, 2⟩
      expiration := 1600000000
      fillOrKill := false
      amountToSell_fits := by decide
      minToReceive_fits := hmin })

/-- The second account sells 10 of asset 2 for one of core. -/
private def sellTenOfAsset : LimitOrder := ⟨1600000000, 11, 10, ⟨⟨10, 2⟩, ⟨1, core⟩⟩, 20⟩

/-- The book with the new order, in front of old ones. -/
private def withTaker (es : List Event) : Books :=
  { afterEvents es with limitOrders := (afterEvents es).limitOrders.create sellTenOfAsset }

private theorem sound_withTaker {es : List Event}
    (h : Steps smallSettings (fun _ _ => True) Beside smallChain (afterEvents es)) :
    Sound (withTaker es) := by
  have hs := (Reachable.regular ⟨smallChain, genesis_smallChain, h⟩).1.toSound
  have hnew : sellTenOfAsset.Sound :=
    ⟨by decide, by decide, by decide, by decide, by decide, by decide⟩
  have hposting : Postings ⟨True, True, fun _ => True⟩ (afterEvents es) sellTenOfAsset.holds
    (withTaker es) := .single (.createLimit trivial hnew)
  exact hposting.sound hs

/-- `apply_order` of the new order. -/
private def taken (es : List Event) (orderId : ℕ) : Recorded Books Note :=
  final (applyOrder orderId true) ⟨withTaker es, []⟩

/-- A match with one old order; one of asset 2 is left over, and refunded. -/
theorem fills_fair_iff_one : ∃ filled s' notes,
    applyOrder 1 true ⟨withTaker [sellOneCore 9], []⟩ = .ok filled ⟨s', notes⟩ ∧
      notes.length = 3 ∧ ∀ n ∈ notes, n.Fair := by
  have hsteps : Steps smallSettings (fun _ _ => True) Beside smallChain (afterEvents [sellOneCore 9]) := by
    refine (Steps.refl smallChain).afterEvents trivial ?_ ?_
    · decide +kernel
    · exact fits_afterEvents (by decide +kernel) (by decide +kernel)
  have hrun : (Ledger.applyOrder 1 true).run' (withTaker [sellOneCore 9]) = some true := by
    decide +kernel
  have hworth : (taken [sellOneCore 9] 1).notes.length = 3 ∧
      ∀ n ∈ (taken [sellOneCore 9] 1).notes, n.Worthwhile := by
    decide +kernel
  obtain ⟨notes, hnoted, hiff⟩ :=
    (fills_fair_iff (sound_withTaker hsteps)).2 _ _ _ _ (ok_final_of_run' hrun)
  have hnotes : (taken [sellOneCore 9] 1).notes = notes := by
    unfold taken final
    rw [hnoted]
  rw [hnotes] at hworth
  exact ⟨_, _, notes, hnoted, hworth.1, hiff.mpr hworth.2⟩

/-- A second old order, which asks for more, takes the one that is left over and gives nothing. -/
theorem not_fills_fair : ¬ ∀ (s : Books) (orderId : ℕ) (allow filled : Bool) (r : Recorded Books Note),
    Sound s → hardfork555Time < s.headTime → applyOrder orderId allow ⟨s, []⟩ = .ok filled r →
      ∀ n ∈ r.notes, n.Fair := by
  intro hall
  have hsteps : Steps smallSettings (fun _ _ => True) Beside smallChain
      (afterEvents [sellOneCore 10, sellOneCore 9]) := by
    refine ((Steps.refl smallChain).afterEvents trivial ?_ ?_).afterEvents trivial ?_ ?_
    · decide +kernel
    · exact fits_afterEvents (by decide +kernel) (by decide +kernel)
    · decide +kernel
    · exact fits_afterEvents (by decide +kernel) (by decide +kernel)
  have hrun : (applyOrder 2 true).run' ⟨withTaker [sellOneCore 10, sellOneCore 9], []⟩ = some true := by
    decide +kernel
  have hfair := hall _ 2 true true _ (sound_withTaker hsteps) (by decide +kernel)
    (ok_final_of_run' hrun)
  have hunfair : ¬ ∀ n ∈ (taken [sellOneCore 10, sellOneCore 9] 2).notes, n.Fair := by
    decide +kernel
  exact hunfair hfair

end Example

end History

end FinChain.Ledger
