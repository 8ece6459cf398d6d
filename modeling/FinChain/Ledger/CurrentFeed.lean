import FinChain.Ledger.FeedFrames

/-!
# The current feed after a block

A block applies its transactions at the time of the block before. Then the head block time is its own,
there may be a maintenance, the proposals that have expired are executed, and expired orders are
cleared. The update of expired feeds comes last of what concerns bitassets, so at the end of the block
every current feed is right, provided that all of them are followed (`updateExpiredFeeds_ok`).

They are followed as long as an update of the options that keeps `minimum_feeds` revives no feed
(`AssetUpdateBitasset.Revives`): such an update does not compute the median, and with a longer lifetime
a feed that has expired is live again. Then the current feed is wrong until something else has the
median computed. A shorter lifetime does no harm, since the update of expired feeds notices it.
-/

namespace FinChain.Ledger

open Exec

variable {S : Settings} {s s' : Books}

/-! ### Operations on feeds -/

/-- The operation leaves the number of feeds that are needed as it is, and with its lifetime a feed
that has expired is live again. -/
def AssetUpdateBitasset.Revives (op : AssetUpdateBitasset) (s : Books) : Prop :=
  ∃ b, s.bitassets.lookup op.assetToUpdate = some b ∧
    op.newOptions.minimumFeeds = b.options.minimumFeeds ∧
    ∃ f ∈ b.published, f.1 ≠ 0 ∧ f.1 + b.options.feedLifetimeSec ≤ s.headTime ∧
      s.headTime < f.1 + op.newOptions.feedLifetimeSec

/-- An evaluator, when its application keeps the feeds followed. -/
theorem followed_run {ρ : Type} {e : Evaluator ρ} {u : Unit}
    (hread : ∀ {m s₁}, e.doEvaluate s = .ok m s₁ → s₁ = s)
    (hpay : ∀ f, KeepsOk OffFeeds (e.payFee f))
    (happly : ∀ {f m s₁ s₂ u}, OffFeeds s s₁ → FeedsFollowed s₁ → e.doApply f m s₁ = .ok u s₂ →
      FeedsFollowed s₂)
    (h : e.run S false s = .ok u s') (hs : FeedsFollowed s) : FeedsFollowed s' := by
  obtain ⟨f, m, s₁, s₂, s₃, s₄, -, hevaluate, hconvert, hpaid, happlied, hfee⟩ := Evaluator.run_ok h
  obtain rfl := hread hevaluate
  have hbefore : OffFeeds s₁ s₃ :=
    (offFeeds_quietFrame.convertFee _ _ _ _ _ hconvert).trans (hpay _ _ _ _ hpaid)
  have hafter : OffFeeds s₄ s' := offFeeds_quietFrame.adjustBalance _ _ _ _ _ hfee
  exact hafter.feeding.followed (happly hbefore (hbefore.feeding.followed hs) happlied)

theorem followed_of_empty {b : BitassetData} (hfeeds : b.feeds = ∅) (hcurrent : b.currentFeed = .null)
    (now : ℕ) : b.Followed now := by
  have hpublished : b.published = [] := by
    unfold BitassetData.published
    rw [hfeeds]
    rfl
  refine ⟨?_, .inl ⟨?_, hcurrent⟩⟩
  · rw [hpublished]
    intro f hf
    cases hf
  · have hnone : b.currentFeeds now = [] := by
      unfold BitassetData.currentFeeds
      rw [hfeeds]
      rfl
    rw [hnone]
    exact b.options.minimumFeeds_pos

theorem AssetCreate.followed {op : AssetCreate} {u : Unit} (h : (op.evaluator S).run S false s = .ok u s')
    (hs : FeedsFollowed s) : FeedsFollowed s' := by
  refine followed_run (e := op.evaluator S) AssetCreate.doEvaluate_read (offFeeds_quietFrame.payFee _)
    ?_ h hs
  intro f m s₁ s₂ u _ hs₁ happly
  change op.doApply f s₁ = _ at happly
  unfold doApply at happly
  obtain rfl := update_eq_ok.mp happly
  intro k b hb
  change (op.bitassets s₁.nextAssetId s₁.bitassets).lookup k = some b at hb
  unfold bitassets at hb
  split at hb
  · by_cases hk : k = s₁.nextAssetId
    · rw [hk, AList.lookup_insert] at hb
      cases hb
      exact followed_of_empty rfl rfl _
    · rw [AList.lookup_insert_ne hk] at hb
      exact hs₁ k b hb
  · exact hs₁ k b hb

/-- **`asset_update_bitasset`**: without a new number of feeds the current feed stays, which is right
when no feed is revived. -/
theorem AssetUpdateBitasset.followed {op : AssetUpdateBitasset} {u : Unit} (hop : ¬ op.Revives s)
    (h : op.evaluator.run S false s = .ok u s') (hs : FeedsFollowed s) : FeedsFollowed s' := by
  refine followed_run (e := op.evaluator) (fun h => (doEvaluate_ok h).1) (offFeeds_quietFrame.payFee _)
    ?_ h hs
  intro f m s₁ s₂ u hoff hs₁ happly
  change op.doApply s₁ = _ at happly
  unfold doApply at happly
  rw [get_bind] at happly
  obtain rfl := update_eq_ok.mp happly
  refine hs₁.modify fun b hb => ?_
  unfold change
  split
  · exact BitassetData.followed_updateMedianFeeds (hs₁ _ b hb).times
  · next hminimum =>
    have hminimum' : op.newOptions.minimumFeeds = b.options.minimumFeeds := not_not.mp hminimum
    refine (hs₁ _ b hb).change rfl rfl rfl hminimum' (le_refl _) fun f hf hne hlive => ?_
    by_contra hexpired
    -- the bitasset was the same before the fee was paid
    obtain ⟨b₀, hb₀, hsame⟩ := hoff.lookup hb
    refine hop ⟨b₀, hb₀, ?_, f, ?_, hne, ?_, ?_⟩
    · rw [← hsame.options]
      exact hminimum'
    · unfold BitassetData.published
      rw [← hsame.feeds]
      exact hf
    · rw [← hsame.options, ← hoff.headTime]
      exact Nat.le_of_not_lt hexpired
    · rw [← hoff.headTime]
      exact hlive

theorem AssetUpdateFeedProducers.followed {op : AssetUpdateFeedProducers} {u : Unit}
    (h : op.evaluator.run S false s = .ok u s') (hs : FeedsFollowed s) : FeedsFollowed s' := by
  refine followed_run (e := op.evaluator) (fun h => (doEvaluate_ok h).1) (offFeeds_quietFrame.payFee _)
    ?_ h hs
  intro f m s₁ s₂ u _ hs₁ happly
  change op.doApply s₁ = _ at happly
  unfold doApply at happly
  rw [get_bind] at happly
  obtain ⟨_, s₃, hset, happly⟩ := bind_eq_ok.mp happly
  obtain rfl := update_eq_ok.mp hset
  have hcalls := offFeedsFrame.keepsOk_bind (offFeeds_market.filling.checkCallOrders _ _)
    (fun _ => offFeedsFrame.keepsOk_pure _) _ _ _ happly
  refine hcalls.feeding.followed (hs₁.modify fun b hb => ?_)
  refine BitassetData.followed_updateMedianFeeds fun f hf => ?_
  obtain ⟨publisher, hlookup⟩ := BitassetData.lookup_of_mem_published hf
  -- a producer that is new has no feed yet, and its time is zero
  exact op.newFeeds_forall (P := fun f => f.1 ≤ s₁.headTime) (Nat.zero_le _)
    (fun _ g hg => (hs₁ _ b hb).times g (BitassetData.mem_published hg)) publisher f hlookup

theorem AssetPublishFeed.followed {op : AssetPublishFeed} {u : Unit}
    (h : (op.evaluator S).run S false s = .ok u s') (hs : FeedsFollowed s) : FeedsFollowed s' := by
  refine followed_run (e := op.evaluator S) doEvaluate_read (offFeeds_quietFrame.payFee _) ?_ h hs
  intro f m s₁ s₂ u _ hs₁ happly
  change op.doApply s₁ = _ at happly
  unfold doApply at happly
  rw [get_bind] at happly
  obtain ⟨b, -, happly⟩ := require_bind_eq_ok.mp happly
  obtain ⟨_, s₃, hset, happly⟩ := bind_eq_ok.mp happly
  obtain rfl := update_eq_ok.mp hset
  have hcalls : KeepsOk OffFeeds (op.callIfChanged b.currentFeed) :=
    offFeedsFrame.keepsOk_get_bind fun _ => offFeedsFrame.keepsOk_require_bind fun _ =>
      keepsOk_ite (offFeedsFrame.keepsOk_pure ()) <|
        offFeedsFrame.keepsOk_bind (offFeeds_market.filling.checkCallOrders _ _) fun _ =>
          offFeedsFrame.keepsOk_pure _
  refine (hcalls _ _ _ happly).feeding.followed (hs₁.modify fun b hb => ?_)
  refine BitassetData.followed_updateMedianFeeds fun f hf => ?_
  obtain ⟨publisher, hlookup⟩ := BitassetData.lookup_of_mem_published hf
  change (b.feeds.insert op.publisher (s₁.headTime, op.feed)).lookup publisher = some f at hlookup
  by_cases hpublisher : publisher = op.publisher
  · rw [hpublisher, AList.lookup_insert] at hlookup
    cases hlookup
    exact le_refl _
  · rw [AList.lookup_insert_ne hpublisher] at hlookup
    exact (hs₁ _ b hb).times f (BitassetData.mem_published hlookup)

/-- No update of options revives a feed. -/
def Operation.RevivesNone (s : Books) : Operation → Prop
  | assetUpdateBitasset op => ¬ op.Revives s
  | _ => True

/-- **An operation** that revives no feed keeps the current feeds followed. -/
theorem Operation.followed {op : Operation} {u : Unit} (hop : op.RevivesNone s)
    (h : op.run S s = .ok u s') (hs : FeedsFollowed s) : FeedsFollowed s' := by
  by_cases hfeeds : op.Feeds
  · cases op with
    | assetCreate op =>
      obtain ⟨_, -, h⟩ := bind_eq_ok_of_read (fun hv => (AssetCreate.maxSupply_pos hv).1) h
      exact AssetCreate.followed h hs
    | assetUpdateBitasset op =>
      obtain ⟨-, h⟩ := assert_bind_eq_ok.mp h
      exact AssetUpdateBitasset.followed hop h hs
    | assetUpdateFeedProducers op =>
      obtain ⟨-, h⟩ := assert_bind_eq_ok.mp h
      exact AssetUpdateFeedProducers.followed h hs
    | assetPublishFeed op =>
      obtain ⟨_, -, h⟩ := bind_eq_ok_of_read (fun hv => (AssetPublishFeed.validate_ok hv).1) h
      exact AssetPublishFeed.followed h hs
    | transfer | limitOrderCreate | limitOrderCancel | callOrderUpdate | assetUpdate | assetIssue
    | assetReserve | assetFundFeePool | assetSettle | assetGlobalSettle | assetClaimFees | lock =>
      cases hfeeds
  · exact (offFeeds_operation hfeeds s u s' h).feeding.followed hs

/-! ### Blocks -/

/-- What happens in a block besides the update of expired feeds. -/
def Event.InBlock : Event → Prop
  | operation _ | clearExpiredOrders | maintenance _ _ _ => True
  | block _ | updateExpiredFeeds => False

/-- No operation of the event revives a feed. -/
def Event.RevivesNone (s : Books) : Event → Prop
  | operation op => op.RevivesNone s
  | _ => True

/-- What is not modelled leaves bitassets alone, and the time. -/
def BesideInBlock (s s' : Books) : Prop := Beside s s' ∧ s'.headTime = s.headTime

/-- Events of a block that meet the condition `C`. -/
abbrev BlockSteps (S : Settings) (C : Books → Event → Prop) : Books → Books → Prop :=
  Steps S (fun s e => C s e ∧ e.InBlock) BesideInBlock

/-- `_apply_block`: the transactions are applied at the time of the head block. Then the time is that of
the new block, which is later, and the chain does what it does in every block. -/
inductive ApplyBlock (S : Settings) (C : Books → Event → Prop) (s s' : Books) : Prop
  | intro {s₁ s₂ s₃ s₄ : Books} {time : ℕ} (transactions : BlockSteps S C s s₁)
      (htime : s₁.headTime < time) (header : (Event.block time).run S s₁ = .ok () s₂)
      -- the maintenance, the operations of proposals, and expired orders
      (upkeep : BlockSteps S C s₂ s₃)
      (feeds : Event.updateExpiredFeeds.run S s₃ = .ok () s₄)
      (rest : Relation.ReflTransGen BesideInBlock s₄ s') (hfits : s'.Fits)

theorem BesideInBlock.offFeeds (h : BesideInBlock s s') : OffFeeds s s' :=
  .of_fields h.2 h.1.bitassets

/-- **An event of a block** that revives no feed keeps the current feeds followed. -/
theorem Event.followed {e : Event} (hin : e.InBlock) (he : e.RevivesNone s)
    (h : e.run S s = .ok () s') (hs : FeedsFollowed s) : FeedsFollowed s' := by
  cases e with
  | operation op => exact Operation.followed he h hs
  | clearExpiredOrders =>
    exact (offFeeds_market.clearExpiredOrders s () s' h).feeding.followed hs
  | maintenance accounts parameters firstBlock =>
    exact (offFeeds_market.performChainMaintenance _ _ _ s () s' h).feeding.followed hs
  | block | updateExpiredFeeds => cases hin

theorem BlockSteps.followed (h : BlockSteps S (fun s e => e.RevivesNone s) s s')
    (hs : FeedsFollowed s) : FeedsFollowed s' := by
  induction h with
  | refl => exact hs
  | event _ hC he _ ih => exact Event.followed hC.2 hC.1 he ih
  | beside _ hb _ ih => exact hb.offFeeds.feeding.followed ih

/-- **A block**: the current feeds stay followed, and after hardfork 615 all of them are right at its
end. -/
theorem ApplyBlock.followed (h : ApplyBlock S (fun s e => e.RevivesNone s) s s')
    (hs : FeedsFollowed s) :
    FeedsFollowed s' ∧ (hardfork615Time ≤ s'.headTime → ∀ k, RightAt s' k) := by
  obtain @⟨s₁, s₂, s₃, s₄, time, htransactions, htime, hheader, hupkeep, hfeeds, hrest, -⟩ := h
  have hs₁ : FeedsFollowed s₁ := htransactions.followed hs
  have hs₃ : FeedsFollowed s₃ := by
    refine hupkeep.followed ?_
    unfold Event.run at hheader
    obtain rfl := update_eq_ok.mp hheader
    intro k b hb
    exact (hs₁ k b hb).later htime.le
  obtain ⟨hfeeding, hright⟩ := updateExpiredFeeds_ok hfeeds
  -- what comes after the update leaves the feeds alone
  have hlast : Feeding s₄ s' := by
    clear hfeeds hfeeding hright
    induction hrest with
    | refl => exact feedingFrame.refl s₄
    | tail _ hstep ih => exact feedingFrame.trans ih hstep.offFeeds.feeding
  refine ⟨hlast.followed (hfeeding.followed hs₃), fun h615 k => ?_⟩
  rw [hlast.headTime, hfeeding.headTime] at h615
  exact hlast.right k (hright hs₃ h615 k)

theorem Genesis.followed (h : Genesis s) : FeedsFollowed s := by
  intro k b hb
  obtain ⟨hfeeds, hcurrent, -⟩ := h.bitassets k b hb
  exact followed_of_empty hfeeds hcurrent _

/-- **Blocks keep the current feeds followed.** -/
theorem followed_of_blocks {s₀ : Books} (hgenesis : Genesis s₀)
    (h : Relation.ReflTransGen (ApplyBlock S fun s e => e.RevivesNone s) s₀ s) : FeedsFollowed s := by
  induction h with
  | refl => exact hgenesis.followed
  | tail _ hblock ih => exact (hblock.followed ih).1

/-! ### Blocks of the small chain -/

/-- The feeds of the bitasset live for two days. -/
def prolong : Event := .operation (.assetUpdateBitasset
  { fee := ⟨20, core⟩
    issuer := 10
    assetToUpdate := 1
    newOptions :=
      ⟨172800, 1, 86400, 0, 2000, core, Nat.one_pos, Nat.zero_le _, fifth_le_hundredPercent⟩ })

/-- A block of the small chain without maintenance. -/
theorem ApplyBlock.afterEvents {C : Books → Event → Prop} (es : List Event) {es' : List Event} {time : ℕ}
    (htransactions : BlockSteps smallSettings C (Ledger.afterEvents es) (Ledger.afterEvents es'))
    (htime : (Ledger.afterEvents es').headTime < time)
    (hfeeds : (Event.updateExpiredFeeds.run smallSettings).run'
      (Ledger.afterEvents (.block time :: es')) = some ())
    (hfits : (Ledger.afterEvents (.updateExpiredFeeds :: .block time :: es')).Fits) :
    ApplyBlock smallSettings C (Ledger.afterEvents es)
      (Ledger.afterEvents (.updateExpiredFeeds :: .block time :: es')) :=
  .intro htransactions htime rfl (.refl _) (run_afterEvents _ hfeeds) .refl hfits

theorem block_publishPrice {C : Books → Event → Prop} (hproducer : C smallChain setProducer)
    (hpublish : C (afterEvents [setProducer]) publishPrice) :
    ApplyBlock smallSettings C smallChain
      (afterEvents [.updateExpiredFeeds, .block 1500000005, publishPrice, setProducer]) := by
  have hfits₁ : (afterEvents [setProducer]).Fits :=
    fits_afterEvents (by decide) (by decide)
  have hfits₂ : (afterEvents [publishPrice, setProducer]).Fits :=
    fits_afterEvents (by decide) (by decide)
  have hsteps : BlockSteps smallSettings C smallChain (afterEvents [publishPrice, setProducer]) :=
    ((Steps.refl _).event ⟨hproducer, trivial⟩ (run_afterEvents [] (by decide)) hfits₁).event
      ⟨hpublish, trivial⟩ (run_afterEvents [setProducer] (by decide)) hfits₂
  exact ApplyBlock.afterEvents [] hsteps (by decide) (by decide)
    (fits_afterEvents (by decide) (by decide))

/-- The lifetime is changed while the feed is live. -/
theorem block_prolong {C : Books → Event → Prop}
    (hC : C (afterEvents [.updateExpiredFeeds, .block 1500000005, publishPrice, setProducer]) prolong) :
    ApplyBlock smallSettings C
      (afterEvents [.updateExpiredFeeds, .block 1500000005, publishPrice, setProducer])
      (afterEvents [.updateExpiredFeeds, .block 1500000010, prolong, .updateExpiredFeeds,
        .block 1500000005, publishPrice, setProducer]) := by
  have hfits : (afterEvents [prolong, .updateExpiredFeeds, .block 1500000005, publishPrice,
      setProducer]).Fits := fits_afterEvents (by decide) (by decide)
  refine ApplyBlock.afterEvents _ ?_ (by decide) (by decide)
    (fits_afterEvents (by decide) (by decide))
  exact (Steps.refl _).event ⟨hC, trivial⟩ (run_afterEvents _ (by decide)) hfits

theorem block_expire {C : Books → Event → Prop} :
    ApplyBlock smallSettings C
      (afterEvents [.updateExpiredFeeds, .block 1500000005, publishPrice, setProducer])
      (afterEvents [.updateExpiredFeeds, .block 1500090000, .updateExpiredFeeds, .block 1500000005,
        publishPrice, setProducer]) :=
  ApplyBlock.afterEvents _ (.refl _) (by decide) (by decide)
    (fits_afterEvents (by decide) (by decide))

/-- The lifetime is changed when the feed has expired. -/
theorem block_revive {C : Books → Event → Prop}
    (hC : C (afterEvents [.updateExpiredFeeds, .block 1500090000, .updateExpiredFeeds,
      .block 1500000005, publishPrice, setProducer]) prolong) :
    ApplyBlock smallSettings C
      (afterEvents [.updateExpiredFeeds, .block 1500090000, .updateExpiredFeeds, .block 1500000005,
        publishPrice, setProducer])
      (afterEvents [.updateExpiredFeeds, .block 1500090005, prolong, .updateExpiredFeeds,
        .block 1500090000, .updateExpiredFeeds, .block 1500000005, publishPrice, setProducer]) := by
  have hfits : (afterEvents [prolong, .updateExpiredFeeds, .block 1500090000, .updateExpiredFeeds,
      .block 1500000005, publishPrice, setProducer]).Fits :=
    fits_afterEvents (by decide) (by decide)
  refine ApplyBlock.afterEvents _ ?_ (by decide) (by decide)
    (fits_afterEvents (by decide) (by decide))
  exact (Steps.refl _).event ⟨hC, trivial⟩ (run_afterEvents _ (by decide)) hfits

/-! ### The current feed -/

/-- **The current feed is the median of the live feeds** at the end of every block after hardfork 615,
for every bitasset, as long as no update of options has revived a feed. -/
theorem currentFeed_of_blocks {s₀ s₁ : Books} (hgenesis : Genesis s₀)
    (hblocks : Relation.ReflTransGen (ApplyBlock S fun s e => e.RevivesNone s) s₀ s₁)
    (hlast : ApplyBlock S (fun s e => e.RevivesNone s) s₁ s) (h615 : hardfork615Time ≤ s.headTime)
    {k : ℕ} {b : BitassetData} (hb : s.bitassets.lookup k = some b) :
    b.currentFeed = b.liveMedian s.headTime :=
  (hlast.followed (followed_of_blocks hgenesis hblocks)).2 h615 k b hb

/-- The feed of the small chain, which lives on with a longer lifetime. -/
theorem currentFeed_of_blocks_prolong :
    ∃ b, (afterEvents [.updateExpiredFeeds, .block 1500000010, prolong, .updateExpiredFeeds,
        .block 1500000005, publishPrice, setProducer]).bitassets.lookup 1 = some b ∧
      b.currentFeed = b.liveMedian 1500000010 ∧ b.currentFeed ≠ .null := by
  have hfeeds : ∀ k b, (afterEvents [.updateExpiredFeeds, .block 1500000005, publishPrice,
      setProducer]).bitassets.lookup k = some b →
      ∀ f ∈ b.published, ¬ f.1 + b.options.feedLifetimeSec ≤ 1500000005 :=
    Table.forall_of_entries (by decide +kernel)
  have hprolong : Event.RevivesNone (afterEvents [.updateExpiredFeeds, .block 1500000005, publishPrice,
      setProducer]) prolong := by
    rintro ⟨b, hb, -, f, hf, -, hexpired, -⟩
    exact hfeeds _ b hb f hf hexpired
  refine ⟨_, rfl, ?_, by decide +kernel⟩
  exact currentFeed_of_blocks (k := 1) genesis_smallChain
    (Relation.ReflTransGen.single (block_publishPrice trivial trivial)) (block_prolong hprolong)
    (by decide +kernel) rfl

/-- **A longer lifetime revives a feed**, and the current feed stays null. -/
theorem not_currentFeed_of_blocks :
    ¬ ∀ (S : Settings) (s₀ s₁ s : Books), Genesis s₀ →
      Relation.ReflTransGen (ApplyBlock S fun _ _ => True) s₀ s₁ →
      ApplyBlock S (fun _ _ => True) s₁ s → hardfork615Time ≤ s.headTime →
      ∀ k b, s.bitassets.lookup k = some b → b.hasSettlement = false →
        b.currentFeed = b.liveMedian s.headTime := by
  intro h
  have hblocks : Relation.ReflTransGen (ApplyBlock smallSettings fun _ _ => True) smallChain
      (afterEvents [.updateExpiredFeeds, .block 1500090000, .updateExpiredFeeds, .block 1500000005,
        publishPrice, setProducer]) :=
    (Relation.ReflTransGen.single (block_publishPrice trivial trivial)).tail block_expire
  have hright := h smallSettings _ _ _ genesis_smallChain hblocks (block_revive trivial)
    (by decide +kernel) 1 _ rfl (by decide +kernel)
  revert hright
  decide +kernel

end FinChain.Ledger
