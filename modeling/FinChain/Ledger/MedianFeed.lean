import FinChain.Ledger.Bitassets

/-!
# The median of the live feeds

A published feed is live while it is younger than `feed_lifetime_sec`. The current feed of a bitasset
is meant to be the median of the live feeds, or null when there are fewer of them than
`minimum_feeds` (`liveMedian`). The code computes it on some occasions only, and remembers with it the
time of the oldest feed that it used. As long as this feed is live, none of the feeds that were used
has expired.

`Followed` is what remains true between two computations. Either the current feed is null and there
are too few live feeds; or the oldest feed that was used is still there, and if it is live, then the
current feed is the median. Time may pass, and the lifetime may change, as long as no feed that has
expired becomes live again (`Followed.change`): then too few feeds stay too few, and while the oldest
feed is live the live feeds stay the same.
-/

namespace FinChain.Ledger

/-! ### The oldest of a list of times -/

theorem foldr_min_le_of_mem {now t : ℕ} {times : List ℕ} (h : t ∈ times) : times.foldr min now ≤ t := by
  induction times with
  | nil => cases h
  | cons t' times ih =>
    rcases List.mem_cons.mp h with rfl | h
    · exact min_le_left _ _
    · exact (min_le_right _ _).trans (ih h)

theorem foldr_min_mem {now : ℕ} {times : List ℕ} (hne : times ≠ []) (hle : ∀ t ∈ times, t ≤ now) :
    times.foldr min now ∈ times := by
  induction times with
  | nil => exact absurd rfl hne
  | cons t times ih =>
    change min t (times.foldr min now) ∈ t :: times
    by_cases hnil : times = []
    · rw [hnil]
      change min t now ∈ [t]
      rw [min_eq_left (hle t List.mem_cons_self)]
      exact List.mem_cons_self
    · rcases min_choice t (times.foldr min now) with h | h
      · rw [h]
        exact List.mem_cons_self
      · rw [h]
        exact List.mem_cons_of_mem t (ih hnil fun t' ht' => hle t' (List.mem_cons_of_mem t ht'))

/-! ### Live feeds -/

namespace BitassetData

/-- The feeds with the times of their publication. -/
def published (b : BitassetData) : List (ℕ × PriceFeed) := b.feeds.entries.map fun e => e.2

/-- The median of the live feeds, field by field; null when there are too few of them. -/
def liveMedian (b : BitassetData) (now : ℕ) : PriceFeed :=
  if (b.currentFeeds now).length < b.options.minimumFeeds then .null
  else .medians ((b.currentFeeds now).map Prod.snd)

variable {b b' : BitassetData} {now now' : ℕ}

theorem mem_published {k : ℕ} {f : ℕ × PriceFeed} (h : b.feeds.lookup k = some f) :
    f ∈ b.published :=
  List.mem_map.mpr ⟨⟨k, f⟩, AList.mem_lookup_iff.mp h, rfl⟩

theorem lookup_of_mem_published {f : ℕ × PriceFeed} (h : f ∈ b.published) :
    ∃ k, b.feeds.lookup k = some f := by
  obtain ⟨e, he, rfl⟩ := List.mem_map.mp h
  exact ⟨e.1, Table.lookup_of_mem_entries he⟩

theorem mem_currentFeeds {f : ℕ × PriceFeed} :
    f ∈ b.currentFeeds now ↔ f ∈ b.published ∧ now < f.1 + b.options.feedLifetimeSec ∧ f.1 ≠ 0 := by
  unfold currentFeeds
  rw [List.mem_filter, decide_eq_true_iff]
  rfl

theorem currentFeeds_congr (hfeeds : b'.feeds = b.feeds)
    (h : ∀ f ∈ b.published, f.1 ≠ 0 →
      (now' < f.1 + b'.options.feedLifetimeSec ↔ now < f.1 + b.options.feedLifetimeSec)) :
    b'.currentFeeds now' = b.currentFeeds now := by
  unfold currentFeeds
  rw [hfeeds]
  apply List.filter_congr
  intro f hf
  rw [decide_eq_decide]
  exact and_congr_left fun hne => h f hf hne

theorem length_currentFeeds_le (hfeeds : b'.feeds = b.feeds)
    (h : ∀ f ∈ b.published, f.1 ≠ 0 →
      now' < f.1 + b'.options.feedLifetimeSec → now < f.1 + b.options.feedLifetimeSec) :
    (b'.currentFeeds now').length ≤ (b.currentFeeds now).length := by
  unfold currentFeeds
  rw [hfeeds, ← List.countP_eq_length_filter, ← List.countP_eq_length_filter]
  apply List.countP_mono_left
  intro f hf hlive
  rw [decide_eq_true_iff] at hlive ⊢
  exact ⟨h f hf hlive.2 hlive.1, hlive.2⟩

/-- The code takes a single feed as it is, which is the median of one feed. -/
theorem medianFeed_eq (feeds : List PriceFeed) : medianFeed feeds = .medians feeds := by
  have hsingle : ∀ {β : Type} (less : β → β → Bool) (x default : β),
      PriceFeed.median less [x] default = x := by
    intro β less x default
    simp [PriceFeed.median]
  unfold medianFeed
  split
  · unfold PriceFeed.medians
    simp only [List.map_cons, List.map_nil, hsingle]
  · rfl

theorem updateMedianFeeds_currentFeed : (b.updateMedianFeeds now).currentFeed = b.liveMedian now := by
  unfold updateMedianFeeds liveMedian
  simp only [medianFeed_eq]
  split
  · rfl
  · rfl

theorem updateMedianFeeds_feeds : (b.updateMedianFeeds now).feeds = b.feeds := by
  unfold updateMedianFeeds
  simp only
  split
  · rfl
  · rfl

theorem updateMedianFeeds_options : (b.updateMedianFeeds now).options = b.options := by
  unfold updateMedianFeeds
  simp only
  split
  · rfl
  · rfl

theorem published_updateMedianFeeds : (b.updateMedianFeeds now).published = b.published := by
  unfold published
  rw [updateMedianFeeds_feeds]

theorem currentFeeds_updateMedianFeeds :
    (b.updateMedianFeeds now).currentFeeds now' = b.currentFeeds now' := by
  unfold currentFeeds
  rw [updateMedianFeeds_feeds, updateMedianFeeds_options]

theorem liveMedian_updateMedianFeeds :
    (b.updateMedianFeeds now).liveMedian now' = b.liveMedian now' := by
  unfold liveMedian
  rw [currentFeeds_updateMedianFeeds, updateMedianFeeds_options]

/-! ### Between two computations -/

/-- There are too few live feeds, and the current feed is null. -/
def Lacking (b : BitassetData) (now : ℕ) : Prop :=
  (b.currentFeeds now).length < b.options.minimumFeeds ∧ b.currentFeed = .null

/-- The oldest feed that was used is there, and while it is live the current feed is the median. -/
structure Supported (b : BitassetData) (now : ℕ) : Prop where
  pos : b.currentFeedPublicationTime ≠ 0
  oldest : ∃ f ∈ b.published, f.1 = b.currentFeedPublicationTime
  median : now < b.currentFeedPublicationTime + b.options.feedLifetimeSec →
    b.currentFeed = b.liveMedian now ∧ ∀ f ∈ b.currentFeeds now, b.currentFeedPublicationTime ≤ f.1

/-- What remains true of the current feed until it is computed again. -/
structure Followed (b : BitassetData) (now : ℕ) : Prop where
  times : ∀ f ∈ b.published, f.1 ≤ now
  current : b.Lacking now ∨ b.Supported now

theorem Lacking.right (h : b.Lacking now) : b.currentFeed = b.liveMedian now := by
  unfold liveMedian
  rw [if_pos h.1]
  exact h.2

/-- **A feed that counts as live is right.** -/
theorem Followed.right (h : b.Followed now)
    (hlive : now < b.currentFeedPublicationTime + b.options.feedLifetimeSec) :
    b.currentFeed = b.liveMedian now := by
  rcases h.current with hlacking | hsupported
  · exact hlacking.right
  · exact (hsupported.median hlive).1

/-- **The median that was just computed.** -/
theorem followed_updateMedianFeeds (htimes : ∀ f ∈ b.published, f.1 ≤ now) :
    (b.updateMedianFeeds now).Followed now := by
  have hcurrent : (b.updateMedianFeeds now).currentFeed = b.liveMedian now :=
    updateMedianFeeds_currentFeed
  refine ⟨?_, ?_⟩
  · rw [published_updateMedianFeeds]
    exact htimes
  by_cases hfew : (b.currentFeeds now).length < b.options.minimumFeeds
  · refine .inl ⟨?_, ?_⟩
    · rw [currentFeeds_updateMedianFeeds, updateMedianFeeds_options]
      exact hfew
    · rw [hcurrent]
      unfold liveMedian
      rw [if_pos hfew]
  · -- there are live feeds, since at least one is required
    have hpos : 0 < (b.currentFeeds now).length :=
      b.options.minimumFeeds_pos.trans_le (Nat.le_of_not_lt hfew)
    have hpublication : (b.updateMedianFeeds now).currentFeedPublicationTime =
        ((b.currentFeeds now).map Prod.fst).foldr min now := by
      unfold updateMedianFeeds
      simp only [if_neg hfew]
    have hmem : (b.updateMedianFeeds now).currentFeedPublicationTime ∈
        (b.currentFeeds now).map Prod.fst := by
      rw [hpublication]
      refine foldr_min_mem (List.ne_nil_of_length_pos (by rwa [List.length_map])) ?_
      intro t ht
      obtain ⟨f, hf, rfl⟩ := List.mem_map.mp ht
      exact htimes f (mem_currentFeeds.mp hf).1
    obtain ⟨f, hf, holdest⟩ := List.mem_map.mp hmem
    obtain ⟨hpublished, -, hne⟩ := mem_currentFeeds.mp hf
    refine .inr ⟨holdest ▸ hne, ⟨f, ?_, holdest⟩, fun _ => ⟨?_, ?_⟩⟩
    · rw [published_updateMedianFeeds]
      exact hpublished
    · rw [hcurrent, liveMedian_updateMedianFeeds]
    · rw [currentFeeds_updateMedianFeeds, hpublication]
      intro g hg
      exact foldr_min_le_of_mem (List.mem_map_of_mem hg)

/-- **Between two computations**: nothing changes but the time and the lifetime, and no feed that has
expired becomes live again. -/
theorem Followed.change (h : b.Followed now) (hfeeds : b'.feeds = b.feeds)
    (hcurrent : b'.currentFeed = b.currentFeed)
    (htime : b'.currentFeedPublicationTime = b.currentFeedPublicationTime)
    (hminimum : b'.options.minimumFeeds = b.options.minimumFeeds) (hle : now ≤ now')
    (hexpired : ∀ f ∈ b.published, f.1 ≠ 0 →
      now' < f.1 + b'.options.feedLifetimeSec → now < f.1 + b.options.feedLifetimeSec) :
    b'.Followed now' := by
  have hpublished : b'.published = b.published := by
    unfold published
    rw [hfeeds]
  refine ⟨?_, ?_⟩
  · rw [hpublished]
    exact fun f hf => (h.times f hf).trans hle
  rcases h.current with ⟨hfew, hnull⟩ | hsupported
  · -- too few feeds stay too few
    refine .inl ⟨?_, hcurrent.trans hnull⟩
    rw [hminimum]
    exact (length_currentFeeds_le hfeeds hexpired).trans_lt hfew
  · obtain ⟨f, hf, holdest⟩ := hsupported.oldest
    refine .inr ⟨?_, ⟨f, ?_, ?_⟩, ?_⟩
    · rw [htime]
      exact hsupported.pos
    · rw [hpublished]
      exact hf
    · rw [htime]
      exact holdest
    rw [htime]
    intro hlive
    -- the oldest feed that was used was live before
    have hbefore : now < b.currentFeedPublicationTime + b.options.feedLifetimeSec := by
      rw [← holdest] at hlive ⊢
      exact hexpired f hf (holdest ▸ hsupported.pos) hlive
    obtain ⟨hmedian, hused⟩ := hsupported.median hbefore
    have hsame : b'.currentFeeds now' = b.currentFeeds now := by
      refine currentFeeds_congr hfeeds fun g hg hne => ⟨hexpired g hg hne, fun hg' => ?_⟩
      have hge := hused g (mem_currentFeeds.mpr ⟨hg, hg', hne⟩)
      exact hlive.trans_le (Nat.add_le_add_right hge _)
    refine ⟨?_, ?_⟩
    · rw [hcurrent, hmedian]
      unfold liveMedian
      rw [hsame, hminimum]
    · rw [hsame]
      exact hused

/-- Time passes. -/
theorem Followed.later (h : b.Followed now) (hle : now ≤ now') : b.Followed now' :=
  h.change rfl rfl rfl rfl hle fun _ _ _ hlive => hle.trans_lt hlive

end BitassetData

end FinChain.Ledger
