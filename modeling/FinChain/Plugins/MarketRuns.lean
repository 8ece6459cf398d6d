import FinChain.Lib.Loops
import FinChain.Plugins.MarketBuckets

/-!
# Runs of the market history plugin

The order history and all buckets together, over any blocks. What a run has to record is said in terms of the matches
(`MarketHistoryPlugin.Recorded`): every bucket that is stored describes the matches of its market in its interval, each counted
once, and the order history has all operations in their order, with decreasing sequence numbers
(`OrderHistoryInv`).

All this holds of every run that comes to its end (`MarketHistoryPlugin.recorded_of_run`). A run does not come to its
end if the order history is read past its last entry where that has no outcome, if a sum does not fit, and if a
length of time is zero (`MarketHistoryPlugin.FillFits`, `MarketHistoryPlugin.marketHistory_iff`). The first of these
happens at the very first fill.
-/

namespace FinChain.Plugins

open Ledger Chain Exec

/-! ### Sequence numbers -/

/-- **The order history** has the operations in their order, and its sequence numbers decrease within a
market. -/
structure OrderHistoryInv (ops : List (ℕ × FillOrder)) (history : List OrderHistory) : Prop where
  ops_eq : history.map (fun e => (e.time, e.op)) = ops
  key_eq : ∀ e ∈ history, e.key.base = e.op.marketBase ∧ e.key.quote = e.op.marketQuote
  least : ∀ e ∈ history, -2 ^ 63 ≤ e.key.sequence
  decreasing : history.Pairwise fun e f =>
    e.key.base = f.key.base → e.key.quote = f.key.quote → f.key.sequence < e.key.sequence

namespace MarketHistoryPlugin

variable {P : MarketHistoryPlugin} {history history' : List OrderHistory} {o : FillOrder} {now : ℕ}
  {ops : List (ℕ × FillOrder)}

/-- **An operation can be numbered**: something is read, and a number before it, if it is of the same market, is
in the range of an `int64_t`, with 200 to spare. -/
def Numbered (P : MarketHistoryPlugin) (history : List OrderHistory) (o : FillOrder) : Prop :=
  ∃ found, P.readKey (lowerBoundKey history ⟨o.marketBase, o.marketQuote, -2 ^ 63⟩) = .ok found ∧
    (found.base = o.marketBase ∧ found.quote = o.marketQuote →
      -2 ^ 63 ≤ found.sequence - 1 ∧ found.sequence - 1 + 200 < 2 ^ 63)

/-- What is read is no more than any number of the market. -/
theorem found_le (hleast : ∀ e ∈ history, -2 ^ 63 ≤ e.key.sequence) {found : HistoryKey}
    (hread : P.readKey (lowerBoundKey history ⟨o.marketBase, o.marketQuote, -2 ^ 63⟩) = .ok found)
    {e : OrderHistory} (he : e ∈ history) (hbase : e.key.base = o.marketBase)
    (hquote : e.key.quote = o.marketQuote) :
    found.base = o.marketBase ∧ found.quote = o.marketQuote ∧ found.sequence ≤ e.key.sequence := by
  have hfrom : (⟨o.marketBase, o.marketQuote, -2 ^ 63⟩ : HistoryKey) ≤ e.key := by
    rw [HistoryKey.le_iff]
    exact .inr ⟨hbase.symm, .inr ⟨hquote.symm, hleast e he⟩⟩
  have hmem : e.key ∈ (history.map OrderHistory.key).filter
      ((⟨o.marketBase, o.marketQuote, -2 ^ 63⟩ : HistoryKey) ≤ ·) :=
    List.mem_filter.mpr ⟨List.mem_map_of_mem he, decide_eq_true hfrom⟩
  unfold lowerBoundKey at hread
  cases hmin : ((history.map OrderHistory.key).filter
      ((⟨o.marketBase, o.marketQuote, -2 ^ 63⟩ : HistoryKey) ≤ ·)).min? with
  | none =>
    rw [List.min?_eq_none_iff] at hmin
    rw [hmin] at hmem
    cases hmem
  | some k =>
    rw [hmin] at hread
    cases hread
    obtain ⟨hk, hle⟩ := List.min?_eq_some_iff.mp hmin
    have hlow := of_decide_eq_true (List.mem_filter.mp hk).2
    have hup := hle e.key hmem
    rw [HistoryKey.le_iff] at hlow hup
    dsimp only at hlow
    -- between the lower bound and the entry there is only this market
    omega

theorem nextSequence_eq {found : HistoryKey}
    (hread : P.readKey (lowerBoundKey history ⟨o.marketBase, o.marketQuote, -2 ^ 63⟩) = .ok found) :
    P.nextSequence history o =
      if found.base = o.marketBase ∧ found.quote = o.marketQuote then checkedInt64 (found.sequence - 1)
      else .ok 0 := by
  unfold nextSequence
  rw [hread]
  rfl

variable (now) in
/-- **A new entry** keeps the order history as it should be. -/
theorem noteFill_spec (h : OrderHistoryInv ops history) (hnumbered : P.Numbered history o) :
    ∃ history', P.noteFill now o history = .ok history' ∧ OrderHistoryInv (ops ++ [(now, o)]) history' := by
  obtain ⟨found, hread, hrange⟩ := hnumbered
  have hbelow : ∃ sequence, P.nextSequence history o = .ok sequence ∧ -2 ^ 63 ≤ sequence ∧
      sequence + 200 < 2 ^ 63 ∧ ∀ e ∈ history, e.key.base = o.marketBase → e.key.quote = o.marketQuote →
        sequence < e.key.sequence := by
    rw [nextSequence_eq hread]
    by_cases hmarket : found.base = o.marketBase ∧ found.quote = o.marketQuote
    · obtain ⟨hlow, hup⟩ := hrange hmarket
      rw [if_pos hmarket]
      refine ⟨found.sequence - 1, if_pos ⟨hlow, by omega⟩, hlow, hup, fun e he hbase hquote => ?_⟩
      have hle := (found_le h.least hread he hbase hquote).2.2
      omega
    · rw [if_neg hmarket]
      refine ⟨0, rfl, by decide, by decide, fun e he hbase hquote => ?_⟩
      obtain ⟨hb, hq, -⟩ := found_le h.least hread he hbase hquote
      exact absurd ⟨hb, hq⟩ hmarket
  obtain ⟨sequence, hnext, hlow, hup, hless⟩ := hbelow
  have hnew : (⟨o.marketBase, o.marketQuote, sequence⟩ : HistoryKey) ∉ history.map OrderHistory.key := by
    intro hmem
    obtain ⟨e, he, hkey⟩ := List.mem_map.mp hmem
    have hlt := hless e he (by rw [hkey]) (by rw [hkey])
    rw [hkey] at hlt
    exact lt_irrefl _ hlt
  have hcheck : check MarketFault.notUnique
      ((⟨o.marketBase, o.marketQuote, sequence⟩ : HistoryKey) ∉ history.map OrderHistory.key) = .ok () :=
    if_pos hnew
  have hspare : checkedInt64 (sequence + 200) = .ok (sequence + 200) := if_pos ⟨by omega, hup⟩
  refine ⟨history ++ [⟨⟨o.marketBase, o.marketQuote, sequence⟩, now, o⟩], ?_, ?_⟩
  · unfold noteFill
    rw [hnext]
    show (check _ _ >>= fun _ => checkedInt64 (sequence + 200) >>= _) = _
    rw [hcheck, hspare]
    rfl
  · constructor
    · rw [List.map_append, h.ops_eq]
      rfl
    · intro e he
      rcases List.mem_append.mp he with he | he
      · exact h.key_eq e he
      · rw [List.mem_singleton.mp he]
        exact ⟨rfl, rfl⟩
    · intro e he
      rcases List.mem_append.mp he with he | he
      · exact h.least e he
      · rw [List.mem_singleton.mp he]
        exact hlow
    · rw [List.pairwise_append]
      refine ⟨h.decreasing, List.pairwise_singleton _ _, fun e he f hf hbase hquote => ?_⟩
      rw [List.mem_singleton.mp hf] at hbase hquote ⊢
      exact hless e he hbase hquote

theorem checkedInt64_eq_ok {x y : ℤ} (h : checkedInt64 x = .ok y) : -2 ^ 63 ≤ x ∧ x < 2 ^ 63 ∧ y = x := by
  unfold checkedInt64 at h
  split at h
  · next hx =>
    cases h
    exact ⟨hx.1, hx.2, rfl⟩
  · cases h

/-- An operation that has been noted could be numbered. -/
theorem numbered_of_noteFill (h : P.noteFill now o history = .ok history') : P.Numbered history o := by
  unfold noteFill at h
  obtain ⟨sequence, hnext, h⟩ := except_bind_eq_ok.mp h
  obtain ⟨_, -, h⟩ := except_bind_eq_ok.mp h
  obtain ⟨_, hspare, -⟩ := except_bind_eq_ok.mp h
  have hread : ∃ found, P.readKey (lowerBoundKey history ⟨o.marketBase, o.marketQuote, -2 ^ 63⟩) = .ok found := by
    unfold nextSequence at hnext
    obtain ⟨found, hread, -⟩ := except_bind_eq_ok.mp hnext
    exact ⟨found, hread⟩
  obtain ⟨found, hread⟩ := hread
  refine ⟨found, hread, fun hmarket => ?_⟩
  rw [nextSequence_eq hread, if_pos hmarket] at hnext
  obtain ⟨hlow, -, rfl⟩ := checkedInt64_eq_ok hnext
  exact ⟨hlow, (checkedInt64_eq_ok hspare).2.1⟩

/-! ### Both indices -/

/-- What is recorded of some operations. -/
structure Recording (P : MarketHistoryPlugin) (ops : List (ℕ × FillOrder)) (s : MarketDatabase) : Prop where
  history : OrderHistoryInv ops s.history
  keys : ∀ k, P.KeyInv k (tradesIn k ops) (s.buckets.lookup k)

/-- **An operation can be processed** in a state. -/
structure FillFits (P : MarketHistoryPlugin) (s : MarketDatabase) (fill : ℕ × FillOrder) : Prop where
  numbered : P.Numbered s.history fill.2
  buckets : fill.2.Counted → ∀ bucket ∈ P.trackedBuckets, BucketFits fill.2 fill.1 s.buckets bucket

theorem recording_empty (P : MarketHistoryPlugin) : P.Recording [] {} where
  history := ⟨rfl, fun _ he => (nomatch he), fun _ he => (nomatch he), List.Pairwise.nil⟩
  keys _ := ⟨fun _ _ hne => absurd rfl hne, fun _ => rfl⟩

variable (P now) in
theorem foldlM_fillBucket_of_not_counted (ho : ¬ o.Counted) (buckets : List ℕ) (t : Table BucketKey Bucket) :
    buckets.foldlM (P.fillBucket now o) t = .ok t := by
  have hskip : o.receives.assetId < o.pays.assetId := lt_of_le_of_ne (not_lt.mp ho) o.assets_ne.symm
  induction buckets with
  | nil => rfl
  | cons bucket buckets ih =>
    have hstep : P.fillBucket now o t bucket = .ok t := if_pos hskip
    rw [List.foldlM_cons, hstep]
    exact ih

variable (o now) in
/-- All tracked lengths of time, counted or not. -/
theorem foldlM_trackedBuckets (hmax : P.maximumHistoryPerBucketSize ≠ 0) {t : Table BucketKey Bucket}
    (hinv : ∀ k, P.KeyInv k (tradesIn k ops) (t.lookup k)) :
    ((∃ t', P.trackedBuckets.foldlM (P.fillBucket now o) t = .ok t') ↔
      (o.Counted → ∀ bucket ∈ P.trackedBuckets, BucketFits o now t bucket)) ∧
    ∀ t', P.trackedBuckets.foldlM (P.fillBucket now o) t = .ok t' →
      ∀ k, P.KeyInv k (tradesIn k (ops ++ [(now, o)])) (t'.lookup k) := by
  by_cases ho : o.Counted
  · obtain ⟨hiff, hthen⟩ := foldlM_fillBucket now hmax ho P.tracked_nodup (fun _ h => h) fun k _ => hinv k
    refine ⟨hiff.trans ⟨fun h _ => h, fun h => h ho⟩, fun t' ht' k => ?_⟩
    obtain ⟨hdone, hleft⟩ := hthen t' ht'
    by_cases hk : k.seconds ∈ P.trackedBuckets
    · exact hdone k hk
    · -- nothing is stored for other lengths of time
      rw [hleft k hk]
      exact ⟨fun h => absurd h hk, fun _ => (hinv k).absent (.inl hk)⟩
  · have hsame := foldlM_fillBucket_of_not_counted P now ho P.trackedBuckets t
    refine ⟨iff_of_true ⟨t, hsame⟩ fun h => absurd h ho, fun t' ht' k => ?_⟩
    rw [hsame] at ht'
    cases ht'
    rw [tradesIn_append, tradeAt_of_not_counted ho, Option.toList_none, List.append_nil]
    exact hinv k

/-- **Every operation** keeps what is recorded, and can be processed if and only if it fits. -/
theorem processFill_steps (hmax : P.maximumHistoryPerBucketSize ≠ 0) :
    Steps P.processFill P.Recording P.FillFits where
  returns {ops s} fill hinv := by
    obtain ⟨hiff, -⟩ := foldlM_trackedBuckets fill.2 fill.1 hmax hinv.keys
    unfold processFill
    constructor
    · rintro ⟨s', h⟩
      obtain ⟨history, hnote, h⟩ := except_bind_eq_ok.mp h
      obtain ⟨buckets, hbuckets, -⟩ := except_bind_eq_ok.mp h
      exact ⟨numbered_of_noteFill hnote, hiff.mp ⟨buckets, hbuckets⟩⟩
    · intro hfits
      obtain ⟨history, hnote, -⟩ := noteFill_spec fill.1 hinv.history hfits.numbered
      obtain ⟨buckets, hbuckets⟩ := hiff.mpr hfits.buckets
      refine ⟨⟨history, buckets⟩, ?_⟩
      rw [hnote]
      show (P.trackedBuckets.foldlM (P.fillBucket fill.1 fill.2) s.buckets >>= _) = _
      rw [hbuckets]
      rfl
  keeps {ops s fill s'} hinv h := by
    obtain ⟨-, hthen⟩ := foldlM_trackedBuckets fill.2 fill.1 hmax hinv.keys
    unfold processFill at h
    obtain ⟨history, hnote, h⟩ := except_bind_eq_ok.mp h
    obtain ⟨buckets, hbuckets, h⟩ := except_bind_eq_ok.mp h
    cases h
    obtain ⟨history', hnote', hhistory⟩ :=
      noteFill_spec fill.1 hinv.history (numbered_of_noteFill hnote)
    rw [hnote] at hnote'
    cases hnote'
    exact ⟨hhistory, hthen buckets hbuckets⟩

/-! ### Matches -/

end MarketHistoryPlugin

/-- A match, reported to a bucket of its market and its interval. -/
def matchAt (k : BucketKey) (fill : ℕ × FillOrder) : Option Trade :=
  if k.base = fill.2.marketBase ∧ k.quote = fill.2.marketQuote ∧ k.opened = fill.1 / k.seconds * k.seconds then
    some (if fill.2.pays.assetId < fill.2.receives.assetId then fill.2.trade else fill.2.swap.trade)
  else none

/-- The matches of a market in an interval, in their order. -/
def matchesIn (k : BucketKey) (blocks : List MarketBlock) : List Trade :=
  (blocks.flatMap fun b => b.fills.map fun o => (b.timestamp, o)).filterMap (matchAt k)

/-- Of the two operations of a match, one is counted. -/
theorem filterMap_tradeAt (k : BucketKey) (now : ℕ) (o : FillOrder) :
    [(now, o), (now, o.swap)].filterMap (tradeAt k) = (matchAt k (now, o)).toList := by
  have hmatch : ∀ x : FillOrder, x.Counted → (x.marketBase, x.marketQuote) = (x.pays.assetId, x.receives.assetId) :=
    fun x hx => Prod.ext (min_eq_left (le_of_lt hx)) (max_eq_right (le_of_lt hx))
  by_cases ho : o.Counted
  · obtain ⟨hbase, hquote⟩ := Prod.mk.inj (hmatch o ho)
    have hswap : tradeAt k (now, o.swap) = none :=
      tradeAt_of_not_counted (not_lt.mpr (le_of_lt (show o.pays.assetId < o.receives.assetId from ho))) k now
    have hcounted : tradeAt k (now, o) = matchAt k (now, o) := by
      unfold tradeAt matchAt
      rw [hbase, hquote, if_pos (show o.pays.assetId < o.receives.assetId from ho)]
      exact if_congr (and_iff_right ho) rfl rfl
    rw [List.filterMap_cons, List.filterMap_cons, hswap, hcounted]
    cases matchAt k (now, o) <;> rfl
  · have hcounted' : o.swap.Counted := lt_of_le_of_ne (not_lt.mp ho) o.assets_ne.symm
    obtain ⟨hbase, hquote⟩ := Prod.mk.inj (hmatch o.swap hcounted')
    have hcounted : tradeAt k (now, o.swap) = matchAt k (now, o) := by
      have hb : o.marketBase = o.swap.pays.assetId := (min_comm _ _).trans hbase
      have hq : o.marketQuote = o.swap.receives.assetId := (max_comm _ _).trans hquote
      unfold tradeAt matchAt
      rw [hb, hq, if_neg (show ¬ o.pays.assetId < o.receives.assetId from ho)]
      exact if_congr (and_iff_right hcounted') rfl rfl
    rw [List.filterMap_cons, List.filterMap_cons, tradeAt_of_not_counted ho, hcounted]
    cases matchAt k (now, o) <;> rfl

/-- Each match is counted once. -/
theorem tradesIn_appliedOperations (k : BucketKey) (blocks : List MarketBlock) :
    tradesIn k (blocks.flatMap MarketBlock.appliedOperations) = matchesIn k blocks := by
  unfold tradesIn matchesIn
  rw [List.filterMap_flatMap, List.filterMap_flatMap]
  congr 1
  ext1 b
  unfold MarketBlock.appliedOperations
  rw [List.filterMap_flatMap, List.filterMap_map, List.filterMap_eq_flatMap_toList]
  congr 1
  ext1 o
  exact filterMap_tradeAt k b.timestamp o

/-! ### Runs -/

namespace MarketHistoryPlugin

variable {P : MarketHistoryPlugin} {s : MarketDatabase}

/-- The operations that are looked at. -/
def operations (P : MarketHistoryPlugin) (blocks : List MarketBlock) : List (ℕ × FillOrder) :=
  if P.maximumHistoryPerBucketSize = 0 then []
  else if P.trackedBuckets = [] then []
  else blocks.flatMap MarketBlock.appliedOperations

/-- The blocks make one run over their operations. -/
theorem foldlM_updateMarketHistories (P : MarketHistoryPlugin) (blocks : List MarketBlock) (s : MarketDatabase) :
    blocks.foldlM P.updateMarketHistories s = (P.operations blocks).foldlM P.processFill s := by
  unfold updateMarketHistories operations
  by_cases hmax : P.maximumHistoryPerBucketSize = 0
  · simp only [if_pos hmax]
    induction blocks with
    | nil => rfl
    | cons b blocks ih => exact ih
  by_cases htracked : P.trackedBuckets = []
  · simp only [if_neg hmax, if_pos htracked]
    induction blocks with
    | nil => rfl
    | cons b blocks ih => exact ih
  · simp only [if_neg hmax, if_neg htracked]
    induction blocks generalizing s with
    | nil => rfl
    | cons b blocks ih =>
      rw [List.foldlM_cons, List.flatMap_cons, List.foldlM_append]
      exact congrArg _ (funext ih)

/-- **What a run has to record.** -/
structure Recorded (P : MarketHistoryPlugin) (blocks : List MarketBlock) (s : MarketDatabase) : Prop where
  /-- A stored bucket describes the matches of its market in its interval. -/
  bucketOf : ∀ k b, s.buckets.lookup k = some b → k.seconds ∈ P.trackedBuckets ∧ BucketOf (matchesIn k blocks) b
  /-- There is a bucket if there were matches, except for those that are removed. -/
  stored : P.maximumHistoryPerBucketSize ≠ 0 → ∀ k, k.seconds ∈ P.trackedBuckets → P.cutoff k.seconds ≤ k.opened →
    matchesIn k blocks ≠ [] → ∃ b, s.buckets.lookup k = some b
  history : OrderHistoryInv (P.operations blocks) s.history

theorem recorded_of_run {blocks : List MarketBlock} (hrun : blocks.foldlM P.updateMarketHistories {} = .ok s) :
    P.Recorded blocks s := by
  rw [foldlM_updateMarketHistories] at hrun
  by_cases hoff : P.maximumHistoryPerBucketSize = 0 ∨ P.trackedBuckets = []
  · have hnone : P.operations blocks = [] := by
      unfold operations
      rcases hoff with hmax | htracked
      · rw [if_pos hmax]
      · rw [if_pos htracked, ite_self]
    rw [hnone] at hrun
    cases hrun
    refine ⟨fun _ _ h => (nomatch h), fun hmax k hk => ?_, hnone ▸ (recording_empty P).history⟩
    rw [hoff.resolve_left hmax] at hk
    cases hk
  · obtain ⟨hmax, htracked⟩ := not_or.mp hoff
    have hinv := (processFill_steps hmax).inv (recording_empty P) hrun
    have htrades : ∀ k, tradesIn k (P.operations blocks) = matchesIn k blocks := fun k => by
      unfold operations
      rw [if_neg hmax, if_neg htracked, tradesIn_appliedOperations]
    refine ⟨fun k b hb => ?_, fun _ k hk hcutoff hne => ?_, hinv.history⟩
    · have hkey := hinv.keys k
      rw [hb, htrades] at hkey
      exact hkey.bucketOf
    · have hkey := hinv.keys k
      rw [htrades] at hkey
      obtain ⟨b, hb, -⟩ := hkey.stored hk hcutoff hne
      exact ⟨b, hb⟩

/-- **The market history is right** after any blocks, if and only if every operation that is looked at can be
processed in the state that it finds. -/
theorem marketHistory_iff (P : MarketHistoryPlugin) (blocks : List MarketBlock) :
    (∃ s, blocks.foldlM P.updateMarketHistories {} = .ok s ∧ P.Recorded blocks s) ↔
      ∀ before fill after, P.operations blocks = before ++ fill :: after →
        ∀ s, before.foldlM P.processFill {} = .ok s → P.FillFits s fill := by
  have hreturns : (∃ s, blocks.foldlM P.updateMarketHistories {} = .ok s ∧ P.Recorded blocks s) ↔
      ∃ s, blocks.foldlM P.updateMarketHistories {} = .ok s :=
    exists_congr fun s => and_iff_left_of_imp recorded_of_run
  rw [hreturns]
  simp only [foldlM_updateMarketHistories]
  by_cases hmax : P.maximumHistoryPerBucketSize = 0
  · have hnone : P.operations blocks = [] := if_pos hmax
    rw [hnone]
    exact iff_of_true ⟨{}, rfl⟩ fun before fill after h => absurd h (by simp)
  · exact (processFill_steps hmax).returns_iff (recording_empty P)

/-- The lengths of time that are tracked unless something else is said. -/
def standard : MarketHistoryPlugin where
  trackedBuckets := [15, 60, 300, 3600, 86400]
  tracked_nodup := by decide
  maximumHistoryPerBucketSize := 1000
  pastTheEnd := none

/-- Ten of the asset 0 for twenty of the asset 1. -/
def oneMatch : FillOrder where
  pays := ⟨10, 0⟩
  receives := ⟨20, 1⟩
  assets_ne := by decide
  pays_mem := by decide
  receives_mem := by decide
  something := by decide

/-- The first match that the plugin sees is looked up in an empty order history. -/
theorem not_marketHistory : ¬ ∀ (P : MarketHistoryPlugin) (blocks : List MarketBlock),
    ∃ s, blocks.foldlM P.updateMarketHistories {} = .ok s ∧ P.Recorded blocks s := by
  intro h
  obtain ⟨s, hrun, -⟩ := h standard [⟨1444745544, [oneMatch]⟩]
  have hstops : [⟨1444745544, [oneMatch]⟩].foldlM standard.updateMarketHistories {} =
      .error MarketFault.pastTheEnd := rfl
  rw [hstops] at hrun
  cases hrun

end MarketHistoryPlugin

end FinChain.Plugins
