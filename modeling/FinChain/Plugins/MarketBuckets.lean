import FinChain.Plugins.MarketHistory
import FinChain.Ledger.MarginPostings

/-!
# What the buckets hold

A bucket of the market history is to describe the matches of its market in its interval: the first and the
last one, the best and the worst price, and the sums (`BucketOf`). A fill keeps this, in every tracked length of
time by itself (`KeyInv`), since nothing but the operation that pays the smaller asset is counted, and since a bucket that is
removed once is removed every time. A counted operation can be processed in a length of time if and only if that
is not zero and the sums fit (`BucketFits`, `foldlM_fillBucket`).
-/

namespace FinChain.Plugins

open Ledger Chain Exec

/-! ### Prices by their amounts -/

/-- The amounts of a match: base, then quote. -/
abbrev Trade := ℤ × ℤ

/-- The amounts that a match may have. -/
structure Trade.Sound (t : Trade) : Prop where
  base : 0 ≤ t.1 ∧ t.1 < 2 ^ 63
  quote : 0 ≤ t.2 ∧ t.2 < 2 ^ 63
  something : 0 < t.1 ∨ 0 < t.2

/-- The price of the first is at most that of the second; a quote of zero makes it infinite. -/
def Trade.Le (t u : Trade) : Prop := t.1 * u.2 ≤ u.1 * t.2

/-- The price of a trade. -/
def Trade.price (k : BucketKey) (t : Trade) : Price := ⟨⟨t.1, k.base⟩, ⟨t.2, k.quote⟩⟩

section Trades

variable {t u v : Trade} {k : BucketKey}

theorem Trade.Le.trans (ht : t.Sound) (hu : u.Sound) (hv : v.Sound) (htu : t.Le u) (huv : u.Le v) : t.Le v := by
  unfold Trade.Le at *
  rcases hu.quote.1.lt_or_eq with hpos | hzero
  · refine le_of_mul_le_mul_right ?_ hpos
    calc t.1 * v.2 * u.2 = t.1 * u.2 * v.2 := by ring
      _ ≤ u.1 * t.2 * v.2 := mul_le_mul_of_nonneg_right htu hv.quote.1
      _ = u.1 * v.2 * t.2 := by ring
      _ ≤ v.1 * u.2 * t.2 := mul_le_mul_of_nonneg_right huv ht.quote.1
      _ = v.1 * t.2 * u.2 := by ring
  · -- an infinite price is below infinite prices only
    have hbase : 0 < u.1 := hu.something.resolve_right (by omega)
    rw [← hzero, mul_zero] at huv
    have hv0 : v.2 = 0 := by
      by_contra hne
      have hpos := mul_pos hbase (lt_of_le_of_ne hv.quote.1 (Ne.symm hne))
      omega
    rw [hv0, mul_zero]
    exact mul_nonneg hv.base.1 ht.quote.1

theorem Trade.cross_price (ht : t.Sound) (hu : u.Sound) : (t.price k).cross (u.price k) = u.2 * t.1 :=
  Price.cross_eq hu.quote.1 (hu.quote.2.trans (by decide)) ht.base.1 (ht.base.2.trans (by decide))

theorem Trade.lt_iff (ht : t.Sound) (hu : u.Sound) : (t.price k).lt (u.price k) = true ↔ ¬ u.Le t := by
  have hsame := Price.lt_of_same (a := t.price k) (b := u.price k) rfl rfl
  rw [hsame, decide_eq_true_iff, cross_price ht hu, cross_price hu ht, Trade.Le, not_le, mul_comm u.2,
    mul_comm t.2]

theorem Trade.gt_iff (ht : t.Sound) (hu : u.Sound) : (t.price k).gt (u.price k) = true ↔ ¬ t.Le u := by
  have heq : (t.price k).eq (u.price k) = true ↔ u.2 * t.1 = t.2 * u.1 := by
    rw [← cross_price (k := k) ht hu, ← cross_price (k := k) hu ht]
    unfold Price.eq
    rw [decide_eq_true_iff]
    exact ⟨fun h => h.2.2, fun h => ⟨rfl, rfl, h⟩⟩
  have hlt := lt_iff (k := k) ht hu
  unfold Price.gt Price.le
  rw [Bool.not_eq_true', Bool.or_eq_false_iff, ← Bool.not_eq_true, ← Bool.not_eq_true, heq, hlt, not_not]
  unfold Trade.Le
  rw [not_le, mul_comm u.2, mul_comm t.2]
  omega

end Trades

/-! ### One bucket -/

/-- **A bucket describes some matches**, in the order in which they were made. -/
structure BucketOf (trades : List Trade) (b : Bucket) : Prop where
  opened : trades.head? = some (b.openBase, b.openQuote)
  closed : trades.getLast? = some (b.closeBase, b.closeQuote)
  high_mem : (b.highBase, b.highQuote) ∈ trades
  high : ∀ t ∈ trades, t.Le (b.highBase, b.highQuote)
  low_mem : (b.lowBase, b.lowQuote) ∈ trades
  low : ∀ t ∈ trades, Trade.Le (b.lowBase, b.lowQuote) t
  baseVolume : b.baseVolume = (trades.map Prod.fst).sum
  quoteVolume : b.quoteVolume = (trades.map Prod.snd).sum

theorem checkedInt64_of_fits {x : ℤ} (h : 0 ≤ x ∧ x < 2 ^ 63) : checkedInt64 x = .ok x :=
  if_pos ⟨by omega, h.2⟩

section BucketOf

variable {k : BucketKey} {t : Trade} {trades : List Trade} {b b' : Bucket}

theorem BucketOf.create (ht : t.Sound) : ∃ b, Bucket.create (t.price k) = .ok b ∧ BucketOf [t] b := by
  refine ⟨⟨t.1, t.2, t.1, t.2, t.1, t.2, t.1, t.2, t.1, t.2⟩, ?_, ?_⟩
  · unfold Bucket.create Trade.price
    simp only [zero_add, checkedInt64_of_fits ht.quote, checkedInt64_of_fits ht.base]
    rfl
  · have hself : ∀ u ∈ [t], u.Le t ∧ t.Le u := by
      intro u hu
      cases List.mem_singleton.mp hu
      exact ⟨le_rfl, le_rfl⟩
    exact ⟨rfl, rfl, List.mem_singleton_self _, fun u hu => (hself u hu).1, List.mem_singleton_self _,
      fun u hu => (hself u hu).2, by simp, by simp⟩

/-- The sums are not negative. -/
theorem BucketOf.volumes_nonneg (h : BucketOf trades b) (hsound : ∀ u ∈ trades, u.Sound) :
    0 ≤ b.baseVolume ∧ 0 ≤ b.quoteVolume := by
  rw [h.baseVolume, h.quoteVolume]
  refine ⟨List.sum_nonneg ?_, List.sum_nonneg ?_⟩
  · simp only [List.mem_map]
    rintro x ⟨u, hu, rfl⟩
    exact (hsound u hu).base.1
  · simp only [List.mem_map]
    rintro x ⟨u, hu, rfl⟩
    exact (hsound u hu).quote.1

/-- A higher price replaces the highest one. -/
theorem Bucket.raise_spec (hclose : (b.closeBase, b.closeQuote) = t)
    (hhigh : Trade.Sound (b.highBase, b.highQuote)) (ht : t.Sound) :
    ∃ high : Trade, b.raise k (t.price k) = { b with highBase := high.1, highQuote := high.2 } ∧
      (high = t ∧ ¬ t.Le (b.highBase, b.highQuote) ∨
        high = (b.highBase, b.highQuote) ∧ t.Le (b.highBase, b.highQuote)) := by
  have hlt : (b.high k).lt (t.price k) = true ↔ ¬ t.Le (b.highBase, b.highQuote) := Trade.lt_iff hhigh ht
  unfold Bucket.raise
  by_cases hup : (b.high k).lt (t.price k) = true
  · rw [if_pos hup]
    exact ⟨(b.closeBase, b.closeQuote), rfl, .inl ⟨hclose, hlt.mp hup⟩⟩
  · rw [if_neg hup]
    exact ⟨(b.highBase, b.highQuote), rfl, .inr ⟨rfl, not_not.mp fun h => hup (hlt.mpr h)⟩⟩

/-- A lower price replaces the lowest one. -/
theorem Bucket.lower_spec (hclose : (b.closeBase, b.closeQuote) = t)
    (hlow : Trade.Sound (b.lowBase, b.lowQuote)) (ht : t.Sound) :
    ∃ low : Trade, b.lower k (t.price k) = { b with lowBase := low.1, lowQuote := low.2 } ∧
      (low = t ∧ ¬ Trade.Le (b.lowBase, b.lowQuote) t ∨
        low = (b.lowBase, b.lowQuote) ∧ Trade.Le (b.lowBase, b.lowQuote) t) := by
  have hgt : (b.low k).gt (t.price k) = true ↔ ¬ Trade.Le (b.lowBase, b.lowQuote) t := Trade.gt_iff hlow ht
  unfold Bucket.lower
  by_cases hdown : (b.low k).gt (t.price k) = true
  · rw [if_pos hdown]
    exact ⟨(b.closeBase, b.closeQuote), rfl, .inl ⟨hclose, hgt.mp hdown⟩⟩
  · rw [if_neg hdown]
    exact ⟨(b.lowBase, b.lowQuote), rfl, .inr ⟨rfl, not_not.mp fun h => hdown (hgt.mpr h)⟩⟩

/-- The best of some prices and one more. -/
theorem mem_best_of_append {high high' : Trade} (hsound : ∀ u ∈ trades, u.Sound) (ht : t.Sound)
    {r : Trade → Trade → Prop} (htrans : ∀ {x y z : Trade}, x.Sound → y.Sound → z.Sound → r x y → r y z → r x z)
    (htotal : ∀ x y : Trade, r x y ∨ r y x) (hmem : high ∈ trades) (hbest : ∀ u ∈ trades, r u high)
    (hnew : high' = t ∧ ¬ r t high ∨ high' = high ∧ r t high) :
    high' ∈ trades ++ [t] ∧ ∀ u ∈ trades ++ [t], r u high' := by
  rcases hnew with ⟨rfl, hnot⟩ | ⟨rfl, hle⟩
  · refine ⟨List.mem_append_right _ (List.mem_singleton_self _), fun u hu => ?_⟩
    have hup := (htotal high' high).resolve_left hnot
    rcases List.mem_append.mp hu with hu | hu
    · exact htrans (hsound u hu) (hsound _ hmem) ht (hbest u hu) hup
    · rw [List.mem_singleton.mp hu]
      exact (htotal _ _).elim id id
  · refine ⟨List.mem_append_left _ hmem, fun u hu => ?_⟩
    rcases List.mem_append.mp hu with hu | hu
    · exact hbest u hu
    · rw [List.mem_singleton.mp hu]
      exact hle

/-- **An update** counts one more match, if the sums fit. -/
theorem BucketOf.update (h : BucketOf trades b) (hsound : ∀ u ∈ trades, u.Sound) (ht : t.Sound)
    (hbase : b.baseVolume + t.1 < 2 ^ 63) (hquote : b.quoteVolume + t.2 < 2 ^ 63) :
    ∃ b', b.update k (t.price k) = .ok b' ∧ BucketOf (trades ++ [t]) b' := by
  obtain ⟨hbase₀, hquote₀⟩ := h.volumes_nonneg hsound
  have hbaseFits := checkedInt64_of_fits ⟨add_nonneg hbase₀ ht.base.1, hbase⟩
  have hquoteFits := checkedInt64_of_fits ⟨add_nonneg hquote₀ ht.quote.1, hquote⟩
  obtain ⟨high, hraise, hhigh⟩ := Bucket.raise_spec (k := k) (t := t)
    (b := ⟨b.highBase, b.highQuote, b.lowBase, b.lowQuote, b.openBase, b.openQuote, t.1, t.2,
      b.baseVolume + t.1, b.quoteVolume + t.2⟩) rfl (hsound _ h.high_mem) ht
  obtain ⟨low, hlower, hlow⟩ := Bucket.lower_spec (k := k) (t := t)
    (b := ⟨high.1, high.2, b.lowBase, b.lowQuote, b.openBase, b.openQuote, t.1, t.2,
      b.baseVolume + t.1, b.quoteVolume + t.2⟩) rfl (hsound _ h.low_mem) ht
  obtain ⟨hhighMem, hhighMax⟩ := mem_best_of_append hsound ht Trade.Le.trans (fun x y => le_total _ _)
    h.high_mem h.high hhigh
  obtain ⟨hlowMem, hlowMin⟩ := mem_best_of_append (r := fun x y => y.Le x) hsound ht
    (fun hx hy hz hxy hyz => Trade.Le.trans hz hy hx hyz hxy) (fun x y => le_total _ _) h.low_mem h.low hlow
  refine ⟨⟨high.1, high.2, low.1, low.2, b.openBase, b.openQuote, t.1, t.2,
    b.baseVolume + t.1, b.quoteVolume + t.2⟩, ?_, ?_⟩
  · unfold Bucket.update
    show (checkedInt64 (b.baseVolume + t.1) >>= fun baseVolume => checkedInt64 (b.quoteVolume + t.2) >>= _) = _
    rw [hbaseFits, hquoteFits]
    exact congrArg Except.ok ((congrArg (Bucket.lower · k (t.price k)) hraise).trans hlower)
  · have hhead : (trades ++ [t]).head? = trades.head? := by
      rw [List.head?_append, h.opened]
      rfl
    exact ⟨hhead.trans h.opened, by simp, hhighMem, hhighMax, hlowMem, hlowMin, by simp [h.baseVolume],
      by simp [h.quoteVolume]⟩

/-- An update that returns has sums that fit. -/
theorem Bucket.update_fits (h : b.update k (t.price k) = .ok b') :
    b.baseVolume + t.1 < 2 ^ 63 ∧ b.quoteVolume + t.2 < 2 ^ 63 := by
  have hfits : ∀ {x y : ℤ}, checkedInt64 x = .ok y → x < 2 ^ 63 := by
    intro x y h
    unfold checkedInt64 at h
    split at h
    · next hx => exact hx.2
    · cases h
  unfold Bucket.update at h
  obtain ⟨_, hbase, h⟩ := except_bind_eq_ok.mp h
  obtain ⟨_, hquote, -⟩ := except_bind_eq_ok.mp h
  exact ⟨hfits hbase, hfits hquote⟩

end BucketOf

/-! ### One length of time -/

/-- The fill that an operation reports to a bucket, if it belongs there and is the one that is counted. -/
def tradeAt (k : BucketKey) (fill : ℕ × FillOrder) : Option Trade :=
  if fill.2.pays.assetId < fill.2.receives.assetId ∧ k.base = fill.2.pays.assetId ∧
      k.quote = fill.2.receives.assetId ∧ k.opened = fill.1 / k.seconds * k.seconds then
    some (fill.2.pays.amount, fill.2.receives.amount)
  else none

/-- The trades of a bucket, among some operations. -/
def tradesIn (k : BucketKey) (ops : List (ℕ × FillOrder)) : List Trade := ops.filterMap (tradeAt k)

/-- The bucket that a counted operation belongs to. -/
def FillOrder.bucketKey (o : FillOrder) (now bucket : ℕ) : BucketKey :=
  ⟨o.pays.assetId, o.receives.assetId, bucket, now / bucket * bucket⟩

/-- The amounts of a counted operation. -/
def FillOrder.trade (o : FillOrder) : Trade := (o.pays.amount, o.receives.amount)

/-- The operation is counted. -/
def FillOrder.Counted (o : FillOrder) : Prop := o.pays.assetId < o.receives.assetId

theorem FillOrder.trade_sound (o : FillOrder) : o.trade.Sound := ⟨o.pays_mem, o.receives_mem, o.something⟩

theorem tradesIn_sound {k : BucketKey} {ops : List (ℕ × FillOrder)} : ∀ t ∈ tradesIn k ops, t.Sound := by
  intro t ht
  obtain ⟨fill, -, h⟩ := List.mem_filterMap.mp ht
  unfold tradeAt at h
  split at h
  · cases h
    exact fill.2.trade_sound
  · cases h

theorem tradesIn_append (k : BucketKey) (ops : List (ℕ × FillOrder)) (fill : ℕ × FillOrder) :
    tradesIn k (ops ++ [fill]) = tradesIn k ops ++ (tradeAt k fill).toList := by
  unfold tradesIn
  rw [List.filterMap_append]
  congr 1

theorem tradeAt_bucketKey {o : FillOrder} (ho : o.Counted) (now bucket : ℕ) :
    tradeAt (o.bucketKey now bucket) (now, o) = some o.trade := if_pos ⟨ho, rfl, rfl, rfl⟩

theorem tradeAt_of_ne {o : FillOrder} {k : BucketKey} {now : ℕ} (hne : k ≠ o.bucketKey now k.seconds) :
    tradeAt k (now, o) = none := by
  refine if_neg ?_
  rintro ⟨-, hbase, hquote, hopened⟩
  apply hne
  rw [FillOrder.bucketKey, ← hbase, ← hquote, ← hopened]

theorem tradeAt_of_not_counted {o : FillOrder} (ho : ¬ o.Counted) (k : BucketKey) (now : ℕ) :
    tradeAt k (now, o) = none := if_neg fun h => ho h.1

namespace MarketHistoryPlugin

variable {P : MarketHistoryPlugin} {k : BucketKey} {ops : List (ℕ × FillOrder)} {now : ℕ} {o : FillOrder}
  {t t' : Table BucketKey Bucket}

/-- **What is stored under a key**: a bucket with its trades, if the length of time is tracked, there were any, and the
bucket is not removed at once; otherwise nothing. -/
structure KeyInv (P : MarketHistoryPlugin) (k : BucketKey) (trades : List Trade) (r : Option Bucket) : Prop where
  stored : k.seconds ∈ P.trackedBuckets → P.cutoff k.seconds ≤ k.opened → trades ≠ [] →
    ∃ b, r = some b ∧ BucketOf trades b
  absent : (k.seconds ∉ P.trackedBuckets ∨ k.opened < P.cutoff k.seconds ∨ trades = []) → r = none

/-- A bucket that is stored describes its trades. -/
theorem KeyInv.bucketOf {trades : List Trade} {b : Bucket} (h : P.KeyInv k trades (some b)) :
    k.seconds ∈ P.trackedBuckets ∧ BucketOf trades b := by
  by_contra hnot
  by_cases habsent : k.seconds ∉ P.trackedBuckets ∨ k.opened < P.cutoff k.seconds ∨ trades = []
  · exact nomatch h.absent habsent
  · simp only [not_or, not_not, not_lt] at habsent
    obtain ⟨htracked, hcutoff, hne⟩ := habsent
    obtain ⟨b', hb', hof⟩ := h.stored htracked hcutoff hne
    cases hb'
    exact hnot ⟨htracked, hof⟩

/-- The loop removes the buckets of the market and the length of time that were opened before the cutoff, and
no others. -/
theorem lookup_removeOld (P : MarketHistoryPlugin) (key : BucketKey) (t : Table BucketKey Bucket) (k : BucketKey) :
    (P.removeOld key t).lookup k =
      if k.base = key.base ∧ k.quote = key.quote ∧ k.seconds = key.seconds ∧ k.opened < P.cutoff key.seconds
        then none else t.lookup k := by
  have hwalk : k ∈ (t.keysFrom { key with opened := 0 }).takeWhile (fun k => k.base = key.base &&
      k.quote = key.quote && k.seconds = key.seconds && k.opened < P.cutoff key.seconds) ↔ k ∈ t ∧
      k.base = key.base ∧ k.quote = key.quote ∧ k.seconds = key.seconds ∧ k.opened < P.cutoff key.seconds := by
    rw [Table.mem_takeWhile_keysFrom]
    · simp only [Bool.and_eq_true, decide_eq_true_eq, BucketKey.le_iff, Nat.zero_le, and_true]
      refine and_congr_right fun _ => ⟨fun h => ?_, fun h => ?_⟩
      · exact ⟨h.2.1.1.1, h.2.1.1.2, h.2.1.2, h.2.2⟩
      · omega
    · -- between two keys of the market and the length of time there are only such keys
      intro a b hle hab hb
      simp only [Bool.and_eq_true, decide_eq_true_eq, BucketKey.le_iff] at *
      omega
  unfold removeOld
  rw [Table.lookup_eraseAll]
  by_cases h : k.base = key.base ∧ k.quote = key.quote ∧ k.seconds = key.seconds ∧
      k.opened < P.cutoff key.seconds
  · rw [if_pos h]
    by_cases hmem : k ∈ t
    · exact if_pos (hwalk.mpr ⟨hmem, h⟩)
    · rw [AList.lookup_eq_none.mpr hmem, ite_self]
  · rw [if_neg h, if_neg fun hk => h (hwalk.mp hk).2]

/-- What a counted operation does in one length of time, if its bucket can be written. -/
theorem fillBucket_ok {bucket : ℕ} {b : Bucket} (hmax : P.maximumHistoryPerBucketSize ≠ 0) (ho : o.Counted)
    (hbucket : bucket ≠ 0) (hb : Bucket.fill (o.bucketKey now bucket) (o.trade.price (o.bucketKey now bucket))
      (t.lookup (o.bucketKey now bucket)) = .ok b) :
    P.fillBucket now o t bucket =
      .ok (P.removeOld (o.bucketKey now bucket) (t.insert (o.bucketKey now bucket) b)) := by
  have hne : check MarketFault.assertion (o.pays.assetId ≠ o.receives.assetId) = .ok () := if_pos o.assets_ne
  have hzero : check MarketFault.divisionByZero (bucket ≠ 0) = .ok () := if_pos hbucket
  unfold fillBucket
  rw [if_neg (not_lt.mpr (le_of_lt ho)), hne, hzero]
  show (Bucket.fill (o.bucketKey now bucket) (o.trade.price (o.bucketKey now bucket))
    (t.lookup (o.bucketKey now bucket)) >>= _) = _
  rw [hb]
  show Except.ok (if P.maximumHistoryPerBucketSize ≠ 0 then _ else _) = _
  rw [if_pos hmax]
  rfl

/-- **A counted operation can be processed** in a length of time: it is not zero, and the sums fit. -/
def BucketFits (o : FillOrder) (now : ℕ) (t : Table BucketKey Bucket) (bucket : ℕ) : Prop :=
  bucket ≠ 0 ∧ ∀ b, t.lookup (o.bucketKey now bucket) = some b →
    b.baseVolume + o.pays.amount < 2 ^ 63 ∧ b.quoteVolume + o.receives.amount < 2 ^ 63

/-- The bucket of an operation that can be processed. -/
theorem fill_of_fits {bucket : ℕ} (htracked : bucket ∈ P.trackedBuckets)
    (hinv : P.KeyInv (o.bucketKey now bucket) (tradesIn (o.bucketKey now bucket) ops)
      (t.lookup (o.bucketKey now bucket))) (hfits : BucketFits o now t bucket) :
    ∃ b, Bucket.fill (o.bucketKey now bucket) (o.trade.price (o.bucketKey now bucket))
        (t.lookup (o.bucketKey now bucket)) = .ok b ∧
      (P.cutoff bucket ≤ now / bucket * bucket →
        BucketOf (tradesIn (o.bucketKey now bucket) ops ++ [o.trade]) b) := by
  have hfits' := hfits.2
  revert hinv hfits'
  cases t.lookup (o.bucketKey now bucket) with
  | none =>
    intro hinv _
    obtain ⟨b, hb, hof⟩ := BucketOf.create (k := o.bucketKey now bucket) o.trade_sound
    refine ⟨b, hb, fun hcutoff => ?_⟩
    -- a bucket that has trades is there
    have hnone : tradesIn (o.bucketKey now bucket) ops = [] := by
      by_contra hne
      obtain ⟨b', hb', -⟩ := hinv.stored htracked hcutoff hne
      cases hb'
    rw [hnone]
    exact hof
  | some b =>
    intro hinv hsums
    obtain ⟨b', hb', hof⟩ := BucketOf.update (k := o.bucketKey now bucket) hinv.bucketOf.2 tradesIn_sound
      o.trade_sound (hsums b rfl).1 (hsums b rfl).2
    exact ⟨b', hb', fun _ => hof⟩

/-- An operation that has been processed fits. -/
theorem fits_of_fillBucket {bucket : ℕ} (ho : o.Counted) (h : P.fillBucket now o t bucket = .ok t') :
    BucketFits o now t bucket := by
  unfold fillBucket at h
  rw [if_neg (not_lt.mpr (le_of_lt ho))] at h
  obtain ⟨_, -, h⟩ := except_bind_eq_ok.mp h
  obtain ⟨_, hzero, h⟩ := except_bind_eq_ok.mp h
  obtain ⟨b, hb, -⟩ := except_bind_eq_ok.mp h
  refine ⟨(check_eq_ok.mp hzero), fun b' hlookup => ?_⟩
  rw [show t.lookup ⟨o.pays.assetId, o.receives.assetId, bucket, now / bucket * bucket⟩ = some b' from hlookup] at hb
  exact Bucket.update_fits (t := o.trade) (k := o.bucketKey now bucket) hb

/-- **A counted operation**, in one length of time: it can be processed if and only if it fits, and what is then
stored in that length of time includes its trade. -/
theorem fillBucket_spec {bucket : ℕ} (hmax : P.maximumHistoryPerBucketSize ≠ 0) (ho : o.Counted)
    (htracked : bucket ∈ P.trackedBuckets)
    (hinv : ∀ k, k.seconds = bucket → P.KeyInv k (tradesIn k ops) (t.lookup k))
    (hfits : BucketFits o now t bucket) : ∃ t', P.fillBucket now o t bucket = .ok t' ∧
      (∀ k, k.seconds = bucket → P.KeyInv k (tradesIn k (ops ++ [(now, o)])) (t'.lookup k)) ∧
      ∀ k, k.seconds ≠ bucket → t'.lookup k = t.lookup k := by
  obtain ⟨b, hb, hof⟩ := fill_of_fits htracked (hinv _ rfl) hfits
  refine ⟨_, fillBucket_ok hmax ho hfits.1 hb, fun k hk => ?_, fun k hk => ?_⟩
  · rw [lookup_removeOld, tradesIn_append]
    by_cases hkey : k = o.bucketKey now bucket
    · subst hkey
      rw [tradeAt_bucketKey ho, AList.lookup_insert]
      constructor
      · intro _ hcutoff _
        rw [if_neg fun h => not_lt.mpr hcutoff h.2.2.2]
        exact ⟨b, rfl, hof hcutoff⟩
      · rintro (hno | hold | hnone)
        · exact absurd htracked hno
        · exact if_pos ⟨rfl, rfl, rfl, hold⟩
        · exact absurd hnone (List.append_ne_nil_of_right_ne_nil _ (List.cons_ne_nil _ _))
    · have hne : tradeAt k (now, o) = none := tradeAt_of_ne (by rw [hk]; exact hkey)
      rw [hne, Option.toList_none, List.append_nil, AList.lookup_insert_ne hkey]
      obtain ⟨hstored, habsent⟩ := hinv k hk
      constructor
      · intro htracked hcutoff hne
        have hyoung : ¬ (k.base = (o.bucketKey now bucket).base ∧ k.quote = (o.bucketKey now bucket).quote ∧
            k.seconds = bucket ∧ k.opened < P.cutoff bucket) := by
          rintro ⟨-, -, -, hold⟩
          rw [hk] at hcutoff
          exact not_lt.mpr hcutoff hold
        rw [show (o.bucketKey now bucket).seconds = bucket from rfl, if_neg hyoung]
        exact hstored htracked hcutoff hne
      · intro h
        rw [habsent h, ite_self]
  · have hkey : k ≠ o.bucketKey now bucket := fun h => hk (congrArg BucketKey.seconds h)
    exact (lookup_removeOld _ _ _ _).trans ((if_neg fun h => hk h.2.2.1).trans (AList.lookup_insert_ne hkey))

variable (now) in
/-- All tracked lengths of time, one after the other. They do not concern each other. -/
theorem foldlM_fillBucket (hmax : P.maximumHistoryPerBucketSize ≠ 0) (ho : o.Counted) {buckets : List ℕ}
    (hnodup : buckets.Nodup) (htracked : ∀ bucket ∈ buckets, bucket ∈ P.trackedBuckets)
    (hinv : ∀ k, k.seconds ∈ buckets → P.KeyInv k (tradesIn k ops) (t.lookup k)) :
    ((∃ t', buckets.foldlM (P.fillBucket now o) t = .ok t') ↔ ∀ bucket ∈ buckets, BucketFits o now t bucket) ∧
    ∀ t', buckets.foldlM (P.fillBucket now o) t = .ok t' →
      (∀ k, k.seconds ∈ buckets → P.KeyInv k (tradesIn k (ops ++ [(now, o)])) (t'.lookup k)) ∧
      ∀ k, k.seconds ∉ buckets → t'.lookup k = t.lookup k := by
  induction buckets generalizing t with
  | nil =>
    refine ⟨iff_of_true ⟨t, rfl⟩ fun _ h => absurd h List.not_mem_nil, ?_⟩
    rintro t' ⟨⟩
    exact ⟨fun k hk => absurd hk List.not_mem_nil, fun k _ => rfl⟩
  | cons bucket buckets ih =>
    obtain ⟨hnew, hnodup⟩ := List.nodup_cons.mp hnodup
    have hother : ∀ w ∈ buckets, w ≠ bucket := fun w hw h => hnew (h ▸ hw)
    by_cases hfits : BucketFits o now t bucket
    · obtain ⟨t₁, hrun, hkeys, hrest⟩ := fillBucket_spec hmax ho (htracked bucket List.mem_cons_self)
        (fun k hk => hinv k (hk ▸ List.mem_cons_self)) hfits
      have hinv₁ : ∀ k, k.seconds ∈ buckets → P.KeyInv k (tradesIn k ops) (t₁.lookup k) := fun k hk => by
        rw [hrest k (hother _ hk)]
        exact hinv k (.tail _ hk)
      obtain ⟨hiff, hthen⟩ := ih hnodup (fun w hw => htracked w (.tail _ hw)) hinv₁
      have hsame : ∀ w ∈ buckets, (BucketFits o now t₁ w ↔ BucketFits o now t w) := fun w hw => by
        unfold BucketFits
        rw [hrest (o.bucketKey now w) (hother w hw)]
      rw [List.foldlM_cons, hrun]
      show ((∃ t', buckets.foldlM (P.fillBucket now o) t₁ = .ok t') ↔ _) ∧
        ∀ t', buckets.foldlM (P.fillBucket now o) t₁ = .ok t' → _
      refine ⟨?_, fun t' ht' => ?_⟩
      · rw [hiff, List.forall_mem_cons]
        exact ⟨fun h => ⟨hfits, fun w hw => (hsame w hw).mp (h w hw)⟩,
          fun h w hw => (hsame w hw).mpr (h.2 w hw)⟩
      · obtain ⟨hdone, hleft⟩ := hthen t' ht'
        refine ⟨fun k hk => ?_, fun k hk => ?_⟩
        · by_cases hmem : k.seconds ∈ buckets
          · exact hdone k hmem
          · have hk := (List.mem_cons.mp hk).resolve_right hmem
            rw [hleft k hmem]
            exact hkeys k hk
        · rw [hleft k fun h => hk (.tail _ h), hrest k fun h => hk (h ▸ List.mem_cons_self)]
    · have hstops : ∀ t', (bucket :: buckets).foldlM (P.fillBucket now o) t ≠ .ok t' := by
        intro t' h
        rw [List.foldlM_cons] at h
        obtain ⟨t₁, hrun, -⟩ := except_bind_eq_ok.mp h
        exact hfits (fits_of_fillBucket ho hrun)
      refine ⟨iff_of_false (fun h => hstops _ h.choose_spec) fun h => hfits (h _ List.mem_cons_self), ?_⟩
      exact fun t' h => absurd h (hstops t')

end MarketHistoryPlugin

end FinChain.Plugins
