import FinChain.Ledger.ActionEffects
import FinChain.Ledger.MedianFeed

/-!
# Who changes price feeds

Orders, margin calls, settlements, operations on locked balances and the maintenance leave the feeds
of every bitasset alone, and the time of the head block (`OffFeeds`). What is left are four operations
and the update of expired feeds. The creation of an asset adds a bitasset without feeds, the other
three and the update compute the median, but for an update of the options that keeps `minimum_feeds`.

A step is `Feeding` when it keeps what is known about current feeds: that they are followed
(`BitassetData.Followed`), and whether the feed of an asset is right.
-/

namespace FinChain.Ledger

open Exec

variable {S : Settings}

/-! ### Steps that leave feeds alone -/

theorem SameFeeds.refl (b : BitassetData) : SameFeeds b b := ⟨rfl, rfl, rfl, rfl⟩

theorem SameFeeds.trans {a b c : BitassetData} (h : SameFeeds a b) (h' : SameFeeds b c) :
    SameFeeds a c where
  options := h'.options.trans h.options
  feeds := h'.feeds.trans h.feeds
  currentFeed := h'.currentFeed.trans h.currentFeed
  currentFeedPublicationTime := h'.currentFeedPublicationTime.trans h.currentFeedPublicationTime

/-- A step that leaves feeds, and the time, alone. -/
structure OffFeeds (s s' : Books) : Prop where
  headTime : s'.headTime = s.headTime
  bitassets : ∀ k, Option.Rel SameFeeds (s.bitassets.lookup k) (s'.bitassets.lookup k)

theorem OffFeeds.of_fields {s s' : Books} (htime : s'.headTime = s.headTime)
    (hbitassets : s'.bitassets = s.bitassets) : OffFeeds s s' := by
  refine ⟨htime, fun k => ?_⟩
  rw [hbitassets]
  cases s.bitassets.lookup k with
  | none => exact .none
  | some b => exact .some (.refl b)

theorem OffFeeds.trans {s₁ s₂ s₃ : Books} (h : OffFeeds s₁ s₂) (h' : OffFeeds s₂ s₃) :
    OffFeeds s₁ s₃ := by
  refine ⟨h'.headTime.trans h.headTime, fun k => ?_⟩
  have hfirst := h.bitassets k
  have hsecond := h'.bitassets k
  revert hfirst hsecond
  generalize s₁.bitassets.lookup k = o₁
  generalize s₂.bitassets.lookup k = o₂
  generalize s₃.bitassets.lookup k = o₃
  intro hfirst hsecond
  cases hfirst with
  | none =>
    cases hsecond
    exact .none
  | some hfirst =>
    cases hsecond with
    | some hsecond => exact .some (hfirst.trans hsecond)

theorem OffFeeds.modify {s : Books} {k : ℕ} {g : BitassetData → BitassetData}
    (hg : ∀ b, SameFeeds b (g b)) :
    OffFeeds s { s with bitassets := s.bitassets.modify k g } := by
  refine ⟨rfl, fun k' => ?_⟩
  change Option.Rel SameFeeds (s.bitassets.lookup k') ((s.bitassets.modify k g).lookup k')
  rw [Table.lookup_modify]
  split
  · next hk =>
    rw [hk]
    cases s.bitassets.lookup k with
    | none => exact .none
    | some b => exact .some (hg b)
  · cases s.bitassets.lookup k' with
    | none => exact .none
    | some b => exact .some (.refl b)

theorem offFeedsFrame : Frame OffFeeds where
  refl _ := .of_fields rfl rfl
  trans := OffFeeds.trans

theorem offFeeds_quietFrame : QuietFrame OffFeeds where
  toFrame := offFeedsFrame
  adjustBalance account delta s u s' h := by
    obtain ⟨t, rfl, -⟩ := adjustBalance_ok h
    exact .of_fields rfl rfl
  modifyStatistics _ s u s' h := by
    obtain ⟨a, -, rfl⟩ := modifyStatistics_ok h
    exact .of_fields rfl rfl
  modifyDynamicData _ s u s' h := by
    obtain ⟨d, -, rfl⟩ := modifyDynamicData_ok h
    exact .of_fields rfl rfl
  rest {s s'} h := by
    rw [h]
    exact .of_fields rfl rfl

theorem offFeeds_book : BookFrame OffFeeds where
  toQuietFrame := offFeeds_quietFrame
  statistics _ _ := .of_fields rfl rfl
  limitOrders _ _ := .of_fields rfl rfl

theorem offFeeds_calls (s : Books) (t : Index CallOrder) : OffFeeds s { s with callOrders := t } :=
  .of_fields rfl rfl

theorem offFeeds_market : MarketFrame OffFeeds where
  toQuietFrame := offFeeds_quietFrame
  cancelLimitOrder := offFeeds_book.cancelLimitOrder
  fillLimitOrder := offFeeds_book.fillLimitOrder
  fillCallOrder := offFeeds_book.fillCallOrder offFeeds_calls
  settlements _ _ := .of_fields rfl rfl
  bitasset _ hg := .modify hg

theorem offFeeds_locking : LockingFrame OffFeeds where
  toQuietFrame := offFeeds_quietFrame
  dynamicData _ _ := .of_fields rfl rfl
  lockData _ _ _ := .of_fields rfl rfl
  lockeds _ _ := .of_fields rfl rfl
  create _ _ := .of_fields rfl rfl
  finish _ _ _ := .of_fields rfl rfl

theorem offFeeds_limitOrderCreate (op : LimitOrderCreate) :
    KeepsOk OffFeeds ((op.evaluator S).run S false) := by
  have hR := offFeeds_market
  have hpay : ∀ f, KeepsOk OffFeeds (op.payFee f) := fun f =>
    hR.keepsOk_get_bind fun _ => keepsOk_ite (hR.payFee _ _) (hR.keepsOk_pure ())
  refine hR.evaluator false (hR.of_read LimitOrderCreate.doEvaluate_read) hpay fun f _ => ?_
  have hcreate : KeepsOk OffFeeds (op.createOrder f) :=
    hR.keepsOk_get_bind fun _ => hR.keepsOk_lift_bind fun _ =>
      hR.keepsOk_bind (keepsOk_update fun s => offFeeds_book.limitOrders s _) fun _ => hR.keepsOk_pure _
  exact hR.keepsOk_bind (offFeeds_book.intoStatistics _ _) fun _ =>
    hR.keepsOk_bind (hR.adjustBalance _ _) fun _ => hR.keepsOk_bind hcreate fun _ =>
      hR.keepsOk_bind (hR.filling.applyOrder _ _) fun _ => hR.keepsOk_assert _ _

theorem offFeeds_callOrderUpdate (op : CallOrderUpdate) :
    KeepsOk OffFeeds (op.evaluator.run S false) := by
  have hR := offFeeds_market
  refine hR.evaluator false (hR.of_read fun h => (CallOrderUpdate.doEvaluate_ok h).1) (hR.payFee _)
    fun _ b => ?_
  intro s u s' h
  unfold CallOrderUpdate.evaluator CallOrderUpdate.doApply at h
  obtain ⟨_, s₁, hdebt, h⟩ := bind_eq_ok.mp h
  obtain ⟨_, s₂, hcollateral, h⟩ := bind_eq_ok.mp h
  rw [get_bind] at h
  obtain ⟨id, s₃, hchange, h⟩ := bind_eq_ok.mp h
  have hposition : op.position b s = .ok id s₃ := by
    refine bind_eq_ok.mpr ⟨_, s₁, hdebt, bind_eq_ok.mpr ⟨_, s₂, hcollateral, ?_⟩⟩
    rw [get_bind]
    exact hchange
  have hmargin : KeepsOk OffFeeds (op.checkMargin b id) :=
    hR.keepsOk_bind (hR.filling.checkCallOrders _ _) fun _ => hR.keepsOk_get_bind fun _ =>
      keepsOk_ite (hR.keepsOk_assert _ _)
        (hR.keepsOk_require_bind fun _ => hR.keepsOk_assert _ _)
  have hclose : KeepsOk OffFeeds (op.closeOrCheck b id) := by
    refine hR.keepsOk_get_bind fun _ => hR.keepsOk_require_bind fun _ => keepsOk_ite ?_ ?_
    · exact hR.keepsOk_assert_bind (keepsOk_update fun s => offFeeds_calls s _)
    · exact hR.keepsOk_assert_bind (keepsOk_ite (hR.keepsOk_pure ()) hmargin)
  exact (offFeeds_book.position offFeeds_calls op b s id s₃ hposition).trans (hclose s₃ u s' h)

/-- The operation may change price feeds. -/
def Operation.Feeds : Operation → Prop
  | assetCreate _ | assetUpdateBitasset _ | assetUpdateFeedProducers _ | assetPublishFeed _ => True
  | _ => False

/-- **Any other operation** leaves feeds alone. -/
theorem offFeeds_operation {op : Operation} (hop : ¬ op.Feeds) : KeepsOk OffFeeds (op.run S) := by
  cases op with
  | assetCreate | assetUpdateBitasset | assetUpdateFeedProducers | assetPublishFeed =>
    exact absurd trivial hop
  | limitOrderCreate op => exact offFeedsFrame.keepsOk_assert_bind (offFeeds_limitOrderCreate op)
  | callOrderUpdate op => exact offFeedsFrame.keepsOk_assert_bind (offFeeds_callOrderUpdate op)
  | lock op => exact offFeeds_locking.run op
  | transfer | limitOrderCancel | assetUpdate | assetIssue | assetReserve | assetFundFeePool
  | assetSettle | assetGlobalSettle | assetClaimFees =>
    exact offFeeds_market.operation (by exact trivial)

/-! ### Steps that keep the current feeds followed -/

/-- Every current feed is followed. -/
def FeedsFollowed (s : Books) : Prop :=
  ∀ k b, s.bitassets.lookup k = some b → b.Followed s.headTime

/-- The current feed of an asset is the median of its live feeds. -/
def RightAt (s : Books) (k : ℕ) : Prop :=
  ∀ b, s.bitassets.lookup k = some b → b.currentFeed = b.liveMedian s.headTime

/-- A step of the update of expired feeds. -/
structure Feeding (s s' : Books) : Prop where
  headTime : s'.headTime = s.headTime
  listed : ∀ k, s.bitassets.lookup k = none → s'.bitassets.lookup k = none
  right : ∀ k, RightAt s k → RightAt s' k
  followed : FeedsFollowed s → FeedsFollowed s'

theorem feedingFrame : Frame Feeding where
  refl _ := ⟨rfl, fun _ => id, fun _ => id, id⟩
  trans h h' := ⟨h'.headTime.trans h.headTime, fun k hk => h'.listed k (h.listed k hk),
    fun k hk => h'.right k (h.right k hk), fun hs => h'.followed (h.followed hs)⟩

theorem SameFeeds.liveMedian {b b' : BitassetData} (h : SameFeeds b b') (now : ℕ) :
    b'.liveMedian now = b.liveMedian now := by
  have hfeeds : b'.currentFeeds now = b.currentFeeds now := by
    unfold BitassetData.currentFeeds
    rw [h.feeds, h.options]
  unfold BitassetData.liveMedian
  rw [hfeeds, h.options]

theorem SameFeeds.followed {b b' : BitassetData} (h : SameFeeds b b') {now : ℕ}
    (hb : b.Followed now) : b'.Followed now := by
  refine hb.change h.feeds h.currentFeed h.currentFeedPublicationTime ?_ (le_refl now) ?_
  · rw [h.options]
  · intro f _ _ hlive
    rwa [h.options] at hlive

theorem OffFeeds.lookup {s s' : Books} (h : OffFeeds s s') {k : ℕ} {b' : BitassetData}
    (hb' : s'.bitassets.lookup k = some b') :
    ∃ b, s.bitassets.lookup k = some b ∧ SameFeeds b b' := by
  have hrel := h.bitassets k
  rw [hb'] at hrel
  generalize ho : s.bitassets.lookup k = o at hrel
  cases hrel with
  | some hsame => exact ⟨_, rfl, hsame⟩

theorem OffFeeds.feeding {s s' : Books} (h : OffFeeds s s') : Feeding s s' := by
  refine ⟨h.headTime, ?_, ?_, ?_⟩
  · intro k hk
    by_contra hne
    obtain ⟨b', hb'⟩ := Option.ne_none_iff_exists'.mp hne
    obtain ⟨b, hb, -⟩ := h.lookup hb'
    rw [hk] at hb
    cases hb
  · intro k hright b' hb'
    obtain ⟨b, hb, hsame⟩ := h.lookup hb'
    rw [h.headTime, hsame.currentFeed, hsame.liveMedian]
    exact hright b hb
  · intro hs k b' hb'
    obtain ⟨b, hb, hsame⟩ := h.lookup hb'
    rw [h.headTime]
    exact hsame.followed (hs k b hb)

theorem FeedsFollowed.modify {s : Books} (hs : FeedsFollowed s) {k : ℕ}
    {g : BitassetData → BitassetData}
    (hg : ∀ b, s.bitassets.lookup k = some b → (g b).Followed s.headTime) :
    FeedsFollowed { s with bitassets := s.bitassets.modify k g } := by
  intro k' b' hb'
  change (s.bitassets.modify k g).lookup k' = some b' at hb'
  rw [Table.lookup_modify] at hb'
  split at hb'
  · obtain ⟨b, hb, rfl⟩ := Option.map_eq_some_iff.mp hb'
    exact hg b hb
  · exact hs k' b' hb'

theorem feeding_updateMedianFeeds (s : Books) (k : ℕ) :
    Feeding s { s with bitassets := s.bitassets.modify k fun b => b.updateMedianFeeds s.headTime } ∧
      RightAt { s with bitassets := s.bitassets.modify k fun b => b.updateMedianFeeds s.headTime } k := by
  have hright : ∀ b : BitassetData, (b.updateMedianFeeds s.headTime).currentFeed =
      (b.updateMedianFeeds s.headTime).liveMedian s.headTime := by
    intro b
    rw [BitassetData.updateMedianFeeds_currentFeed, BitassetData.liveMedian_updateMedianFeeds]
  refine ⟨⟨rfl, fun k' hk' => ?_, fun k' hk' b' hb' => ?_, fun hs => hs.modify fun b hb => ?_⟩, ?_⟩
  · change (s.bitassets.modify k _).lookup k' = none
    rw [Table.lookup_modify]
    split
    · next hk =>
      rw [← hk, hk']
      rfl
    · exact hk'
  · change (s.bitassets.modify k _).lookup k' = some b' at hb'
    rw [Table.lookup_modify] at hb'
    split at hb'
    · obtain ⟨b, -, rfl⟩ := Option.map_eq_some_iff.mp hb'
      exact hright b
    · exact hk' b' hb'
  · exact BitassetData.followed_updateMedianFeeds (hs k b hb).times
  · intro b' hb'
    change (s.bitassets.modify k _).lookup k = some b' at hb'
    rw [Table.lookup_modify, if_pos rfl] at hb'
    obtain ⟨b, -, rfl⟩ := Option.map_eq_some_iff.mp hb'
    exact hright b

/-! ### The update of expired feeds -/

theorem feeding_of_offFeeds {α : Type} {x : LedgerM α} (h : KeepsOk OffFeeds x) : KeepsOk Feeding x :=
  fun s a s' hx => (h s a s' hx).feeding

/-- The median of an expired feed is computed again. -/
theorem expireFeed_ok {k : ℕ} {expired : Bool} {s s' : Books} {u : Unit}
    (h : expireFeed k expired s = .ok u s') : Feeding s s' ∧ (expired = true → RightAt s' k) := by
  unfold expireFeed at h
  split at h
  · rw [get_bind] at h
    obtain ⟨_, s₁, hmodify, h⟩ := bind_eq_ok.mp h
    unfold modifyBitasset at hmodify
    obtain rfl := update_eq_ok.mp hmodify
    obtain ⟨hfeeding, hright⟩ := feeding_updateMedianFeeds s k
    have hrest := feeding_of_offFeeds (offFeedsFrame.keepsOk_get_bind fun _ =>
      offFeedsFrame.keepsOk_require_bind fun _ => offFeedsFrame.keepsOk_require_bind fun _ =>
        offFeedsFrame.keepsOk_bind (offFeeds_market.filling.checkCallOrders _ _) fun _ =>
          offFeedsFrame.keepsOk_pure _) _ _ _ h
    exact ⟨feedingFrame.trans hfeeding hrest, fun _ => hrest.right k hright⟩
  · next hexpired =>
    obtain ⟨-, rfl⟩ := pure_eq_ok.mp h
    exact ⟨feedingFrame.refl s, fun h => absurd h hexpired⟩

/-- **The loop**: after hardfork 615 the feeds of the assets that it has passed are right. -/
theorem updateFeedsOf_ok {ids : List ℕ} {s s' : Books} {u : Unit} (h : updateFeedsOf ids s = .ok u s') :
    Feeding s s' ∧
      (FeedsFollowed s → hardfork615Time ≤ s.headTime → ∀ k ∈ ids, RightAt s' k) := by
  induction ids generalizing s with
  | nil =>
    obtain ⟨-, rfl⟩ := pure_eq_ok.mp h
    refine ⟨feedingFrame.refl s, fun _ _ k hk => ?_⟩
    cases hk
  | cons id ids ih =>
    unfold updateFeedsOf at h
    rw [get_bind] at h
    obtain ⟨b, hb, h⟩ := require_bind_eq_ok.mp h
    obtain ⟨_, s₁, hexpire, h⟩ := bind_eq_ok.mp h
    obtain ⟨_, s₂, hfollow, h⟩ := bind_eq_ok.mp h
    obtain ⟨hfirst, hexpired⟩ := expireFeed_ok hexpire
    have hrate : Feeding s₁ s₂ := (offFeeds_market.followRate id _ _ _ hfollow).feeding
    obtain ⟨hrest, hids⟩ := ih h
    have hfeeding : Feeding s s₂ := feedingFrame.trans hfirst hrate
    refine ⟨feedingFrame.trans hfeeding hrest, fun hs h615 k hk => ?_⟩
    rcases List.mem_cons.mp hk with rfl | hk
    · apply hrest.right
      apply hrate.right
      by_cases hexp : b.feedIsExpired s.headTime = true
      · exact hexpired hexp
      · -- the oldest feed that was used is live
        have hlive : s.headTime < b.currentFeedPublicationTime + b.options.feedLifetimeSec := by
          unfold BitassetData.feedIsExpired at hexp
          rw [if_neg (Nat.not_lt.mpr h615), decide_eq_true_iff, Nat.not_le] at hexp
          have hwrapped : b.feedExpirationTime ≤
              b.currentFeedPublicationTime + b.options.feedLifetimeSec := by
            unfold BitassetData.feedExpirationTime
            exact_mod_cast timePointSec_le _
          exact hexp.trans_le hwrapped
        apply hfirst.right
        intro b' hb'
        rw [hb] at hb'
        cases hb'
        exact (hs k b hb).right hlive
    · refine hids (hfeeding.followed hs) ?_ k hk
      rw [hfeeding.headTime]
      exact h615

/-- **After `update_expired_feeds`** the current feeds are right, if they were followed. -/
theorem updateExpiredFeeds_ok {s s' : Books} {u : Unit} (h : updateExpiredFeeds s = .ok u s') :
    Feeding s s' ∧ (FeedsFollowed s → hardfork615Time ≤ s.headTime → ∀ k, RightAt s' k) := by
  unfold updateExpiredFeeds at h
  rw [get_bind] at h
  obtain ⟨hfeeding, hids⟩ := updateFeedsOf_ok h
  refine ⟨hfeeding, fun hs h615 k b' hb' => ?_⟩
  have hlisted : s.bitassets.lookup k ≠ none := by
    intro hnone
    rw [hfeeding.listed k hnone] at hb'
    cases hb'
  have hk : k ∈ s.bitassets.keys.insertionSort (· ≤ ·) := by
    rw [List.mem_insertionSort]
    obtain ⟨b, hb⟩ := Option.ne_none_iff_exists'.mp hlisted
    exact AList.mem_keys.mp (AList.lookup_isSome.mp (by rw [hb]; rfl))
  exact hids hs h615 k hk b' hb'

end FinChain.Ledger
