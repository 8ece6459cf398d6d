import FinChain.Plugins.MarketRuns

/-!
# Removing old buckets

A fill is to leave no bucket of its market that is older than `max_history` lengths of time, and to remove no bucket
that is younger (`MarketHistoryPlugin.PrunesRight`). But the cutoff is that number of seconds after the epoch, and not before
the time of the block. So buckets are removed by the date at which they were opened: before the cutoff every bucket is
removed in the fill that creates it, and after it no bucket is removed any more.

Hence a sequence of fills is pruned as it should be if and only if there is nothing to remove in it at all
(`MarketHistoryPlugin.pruning_iff`): every fill comes after the cutoff, and none more than `max_history`
lengths of time after the bucket of an earlier one was opened.
-/

namespace FinChain.Plugins

open Ledger Chain Exec

namespace MarketHistoryPlugin

variable {P : MarketHistoryPlugin} {k : BucketKey} {ops : List (ℕ × FillOrder)} {s s' : MarketDatabase}
  {fill : ℕ × FillOrder}

/-- How long buckets are to be kept. -/
def historyLength (P : MarketHistoryPlugin) (bucket : ℕ) : ℕ := bucket * P.maximumHistoryPerBucketSize

/-- The fill is counted in the bucket. -/
def CountedIn (P : MarketHistoryPlugin) (fill : ℕ × FillOrder) (k : BucketKey) : Prop :=
  fill.2.Counted ∧ k.seconds ∈ P.trackedBuckets ∧ k = fill.2.bucketKey fill.1 k.seconds

/-- **What a fill may leave and what it may remove.** -/
structure PrunesRight (P : MarketHistoryPlugin) (fill : ℕ × FillOrder) (s s' : MarketDatabase) : Prop where
  /-- Nothing that is too old remains in the market of the fill. -/
  bounded : fill.2.Counted → ∀ k ∈ s'.buckets, k.base = fill.2.pays.assetId → k.quote = fill.2.receives.assetId →
    k.seconds ∈ P.trackedBuckets → ¬ k.opened + P.historyLength k.seconds < fill.1
  /-- No bucket that is younger is removed, neither one that was there nor the one of the fill. -/
  kept : ∀ k, k ∈ s.buckets ∨ P.CountedIn fill k → fill.1 < k.opened + P.historyLength k.seconds → k ∈ s'.buckets

/-- **There is nothing to remove**: the fills of the market so far come after the cutoff, and no bucket of
theirs is too old. -/
def InWindow (P : MarketHistoryPlugin) (before : List (ℕ × FillOrder)) (fill : ℕ × FillOrder) : Prop :=
  fill.2.Counted → ∀ bucket ∈ P.trackedBuckets, ∀ e ∈ before ++ [fill],
    e.2.pays.assetId = fill.2.pays.assetId → e.2.receives.assetId = fill.2.receives.assetId →
      P.cutoff bucket ≤ e.1 / bucket * bucket ∧ fill.1 ≤ e.1 / bucket * bucket + P.historyLength bucket

/-- Which buckets are stored. -/
theorem Recording.mem_buckets_iff (h : P.Recording ops s) : k ∈ s.buckets ↔
    k.seconds ∈ P.trackedBuckets ∧ P.cutoff k.seconds ≤ k.opened ∧ tradesIn k ops ≠ [] := by
  rw [← AList.lookup_isSome, Option.isSome_iff_ne_none]
  constructor
  · intro hne
    refine ⟨?_, ?_, ?_⟩
    · exact not_not.mp fun hno => hne ((h.keys k).absent (.inl hno))
    · exact not_lt.mp fun hold => hne ((h.keys k).absent (.inr (.inl hold)))
    · exact fun hnone => hne ((h.keys k).absent (.inr (.inr hnone)))
  · rintro ⟨htracked, hcutoff, hne⟩
    obtain ⟨b, hb, -⟩ := (h.keys k).stored htracked hcutoff hne
    rw [hb]
    exact Option.some_ne_none b

/-- A bucket has trades if and only if a fill belongs to it. -/
theorem tradesIn_ne_nil : tradesIn k ops ≠ [] ↔ ∃ e ∈ ops, e.2.Counted ∧ k.base = e.2.pays.assetId ∧
    k.quote = e.2.receives.assetId ∧ k.opened = e.1 / k.seconds * k.seconds := by
  unfold tradesIn
  rw [ne_eq, List.filterMap_eq_nil_iff, not_forall]
  refine exists_congr fun e => ?_
  rw [Classical.not_imp]
  refine and_congr_right fun _ => ?_
  unfold tradeAt FillOrder.Counted
  simp

/-- The bucket of a fill is never too old for it. -/
theorem lt_opened_add (hmax : P.maximumHistoryPerBucketSize ≠ 0) {bucket : ℕ} (hbucket : bucket ≠ 0) (now : ℕ) :
    now < now / bucket * bucket + P.historyLength bucket := by
  calc now < now / bucket * bucket + bucket := Nat.lt_div_mul_add (Nat.pos_of_ne_zero hbucket)
    _ ≤ now / bucket * bucket + P.historyLength bucket :=
      Nat.add_le_add_left (Nat.le_mul_of_pos_right _ (Nat.pos_of_ne_zero hmax)) _

/-- A counted fill that has been processed has tracked lengths of time that are not zero. -/
theorem ne_zero_of_processFill (hmax : P.maximumHistoryPerBucketSize ≠ 0) (hinv : P.Recording ops s)
    (h : P.processFill s fill = .ok s') (hcounted : fill.2.Counted) {bucket : ℕ}
    (hbucket : bucket ∈ P.trackedBuckets) : bucket ≠ 0 :=
  (((processFill_steps hmax).returns fill hinv).mp ⟨s', h⟩).buckets hcounted bucket hbucket |>.1

/-- **One fill** is pruned as it should be if it and the earlier ones are in the window. -/
theorem prunesRight_of_inWindow (hmax : P.maximumHistoryPerBucketSize ≠ 0) (hinv : P.Recording ops s)
    (h : P.processFill s fill = .ok s') (hwindow : P.InWindow ops fill) : P.PrunesRight fill s s' := by
  have hinv' := (processFill_steps hmax).keeps hinv h
  constructor
  · intro hcounted k hk hbase hquote htracked
    obtain ⟨-, -, htrades⟩ := hinv'.mem_buckets_iff.mp hk
    obtain ⟨e, he, -, hbase', hquote', hopened⟩ := tradesIn_ne_nil.mp htrades
    obtain ⟨-, hyoung⟩ := hwindow hcounted _ htracked e he (hbase'.symm.trans hbase) (hquote'.symm.trans hquote)
    rw [hopened]
    exact not_lt.mpr hyoung
  · rintro k (hk | ⟨hcounted, htracked, hk⟩) _
    · obtain ⟨htracked, hcutoff, htrades⟩ := hinv.mem_buckets_iff.mp hk
      refine hinv'.mem_buckets_iff.mpr ⟨htracked, hcutoff, ?_⟩
      rw [tradesIn_append]
      exact List.append_ne_nil_of_left_ne_nil htrades _
    · have hlast : fill ∈ ops ++ [fill] := List.mem_append_right _ (List.mem_singleton_self _)
      obtain ⟨hcutoff, -⟩ := hwindow hcounted _ htracked fill hlast rfl rfl
      refine hinv'.mem_buckets_iff.mpr ⟨htracked, ?_, tradesIn_ne_nil.mpr ⟨fill, hlast, hcounted, ?_⟩⟩
      · rw [hk]
        exact hcutoff
      · exact ⟨congrArg BucketKey.base hk, congrArg BucketKey.quote hk, congrArg BucketKey.opened hk⟩

/-- A fill that is pruned as it should be comes after the cutoff. -/
theorem PrunesRight.cutoff_le (hmax : P.maximumHistoryPerBucketSize ≠ 0) (hinv : P.Recording ops s)
    (h : P.processFill s fill = .ok s') (hright : P.PrunesRight fill s s') (hcounted : fill.2.Counted) {bucket : ℕ}
    (hbucket : bucket ∈ P.trackedBuckets) : P.cutoff bucket ≤ fill.1 / bucket * bucket := by
  have hyoung := lt_opened_add hmax (ne_zero_of_processFill hmax hinv h hcounted hbucket) fill.1
  have hkept : fill.2.bucketKey fill.1 bucket ∈ s'.buckets :=
    hright.kept _ (.inr ⟨hcounted, hbucket, rfl⟩) hyoung
  exact (((processFill_steps hmax).keeps hinv h).mem_buckets_iff.mp hkept).2.1

/-- **Buckets are removed at the right time** in all fills of a sequence, if and only if there is nothing to remove at
any of them. -/
theorem pruning_iff (hmax : P.maximumHistoryPerBucketSize ≠ 0) (ops : List (ℕ × FillOrder)) :
    (∀ before fill after s s', ops = before ++ fill :: after → before.foldlM P.processFill {} = .ok s →
      P.processFill s fill = .ok s' → P.PrunesRight fill s s') ↔
    ∀ before fill after s s', ops = before ++ fill :: after → before.foldlM P.processFill {} = .ok s →
      P.processFill s fill = .ok s' → P.InWindow before fill := by
  have hinv : ∀ {l s}, l.foldlM P.processFill {} = .ok s → P.Recording l s :=
    (processFill_steps hmax).inv (recording_empty P)
  constructor
  · intro hright before fill after s s' hops hrun hstep hcounted bucket hbucket e he hpays hreceives
    have hcountedE : e.2.Counted := by
      show e.2.pays.assetId < e.2.receives.assetId
      rw [hpays, hreceives]
      exact hcounted
    -- the earlier fill comes after the cutoff, so its bucket is still there
    have hcutoff : P.cutoff bucket ≤ e.1 / bucket * bucket := by
      rcases List.mem_append.mp he with hearlier | hself
      · obtain ⟨before₁, after₁, hsplit⟩ := List.append_of_mem hearlier
        rw [hsplit, List.foldlM_append] at hrun
        obtain ⟨s₁, hrun₁, hrest⟩ := except_bind_eq_ok.mp hrun
        rw [List.foldlM_cons] at hrest
        obtain ⟨s₂, hstep₁, -⟩ := except_bind_eq_ok.mp hrest
        have hops₁ : ops = before₁ ++ e :: (after₁ ++ fill :: after) := by simp [hops, hsplit]
        exact (hright _ _ _ _ _ hops₁ hrun₁ hstep₁).cutoff_le hmax (hinv hrun₁) hstep₁ hcountedE hbucket
      · rw [List.mem_singleton.mp hself]
        exact (hright _ _ _ _ _ hops hrun hstep).cutoff_le hmax (hinv hrun) hstep hcounted hbucket
    have hstored : e.2.bucketKey e.1 bucket ∈ s'.buckets :=
      ((processFill_steps hmax).keeps (hinv hrun) hstep).mem_buckets_iff.mpr
        ⟨hbucket, hcutoff, tradesIn_ne_nil.mpr ⟨e, he, hcountedE, rfl, rfl, rfl⟩⟩
    exact ⟨hcutoff, not_lt.mp
      ((hright _ _ _ _ _ hops hrun hstep).bounded hcounted _ hstored hpays hreceives hbucket)⟩
  · intro hwindow before fill after s s' hops hrun hstep
    exact prunesRight_of_inWindow hmax (hinv hrun) hstep (hwindow _ _ _ _ _ hops hrun hstep)

/-- As `standard`, with one length of time, and with a key of another market past the end. -/
def quarterMinutes : MarketHistoryPlugin where
  trackedBuckets := [15]
  tracked_nodup := by decide
  maximumHistoryPerBucketSize := 1000
  pastTheEnd := some ⟨0, 0, 0⟩

theorem pruning_iff_twoDays :
    (∀ before fill after s s', [(86400, oneMatch), (172800, oneMatch)] = before ++ fill :: after →
      before.foldlM quarterMinutes.processFill {} = .ok s → quarterMinutes.processFill s fill = .ok s' →
        quarterMinutes.PrunesRight fill s s') ↔
    ∀ before fill after s s', [(86400, oneMatch), (172800, oneMatch)] = before ++ fill :: after →
      before.foldlM quarterMinutes.processFill {} = .ok s → quarterMinutes.processFill s fill = .ok s' →
        quarterMinutes.InWindow before fill :=
  pruning_iff (P := quarterMinutes) (by decide) _

/-- Two blocks with a match each, a day apart. -/
def twoDays : List MarketBlock := [⟨1444745544, [oneMatch]⟩, ⟨1444831944, [oneMatch]⟩]

/-- After a day the first bucket of a quarter of a minute is still there. -/
theorem not_pruning : ¬ ∀ (P : MarketHistoryPlugin) (blocks : List MarketBlock), P.maximumHistoryPerBucketSize ≠ 0 →
    (blocks.map MarketBlock.timestamp).Pairwise (· ≤ ·) → ∀ before fill after s s',
      P.operations blocks = before ++ fill :: after → before.foldlM P.processFill {} = .ok s →
        P.processFill s fill = .ok s' → P.PrunesRight fill s s' := by
  intro h
  have hmax : quarterMinutes.maximumHistoryPerBucketSize ≠ 0 := by decide
  have hrun : ∃ s s', [(1444745544, oneMatch), (1444745544, oneMatch.swap)].foldlM quarterMinutes.processFill {} =
      .ok s ∧ quarterMinutes.processFill s (1444831944, oneMatch) = .ok s' := ⟨_, _, rfl, rfl⟩
  obtain ⟨s, s', hbefore, hstep⟩ := hrun
  have hcounted : oneMatch.Counted := show (0 : ℕ) < 1 by decide
  have hright := h quarterMinutes twoDays hmax (by decide) _ _ [(1444831944, oneMatch.swap)] s s' rfl hbefore hstep
  have hinv := (processFill_steps hmax).inv (recording_empty quarterMinutes) hbefore
  have hold : (⟨0, 1, 15, 1444745535⟩ : BucketKey) ∈ s'.buckets :=
    ((processFill_steps hmax).keeps hinv hstep).mem_buckets_iff.mpr
      ⟨by decide, by decide, tradesIn_ne_nil.mpr ⟨(1444745544, oneMatch), by simp, hcounted, rfl, rfl, rfl⟩⟩
  exact hright.bounded hcounted _ hold rfl rfl (by decide) (by decide)

end MarketHistoryPlugin

end FinChain.Plugins
