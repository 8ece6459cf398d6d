import FinChain.Ledger.Buyback

/-!
# What buyback processing leaves behind

The loop over the balances of a buyback account ends for all objects: a round that sells something sells an
asset that exists, any other round changes nothing, so that assets or balances get fewer that are still ahead
(`Books.ahead`). What a run leaves is looked at round by round: a round whose order is refused leaves the
objects as they were (`caught_of_refused`), any other round has created an order (`oneNewOrder_of_accepted`),
of which nothing is left just if no exception was thrown.
-/

namespace FinChain.Ledger

open Exec

/-! ### Runs one after the other -/

namespace BuybackRun

variable {S : Settings} {r : BuybackRun} {f g : Books → BuybackRun}

theorem andThen_of_returned (h : r.ending = .returned) :
    r.andThen f = ⟨r.rounds ++ (f r.books).rounds, (f r.books).ending, (f r.books).books⟩ := if_pos h

theorem andThen_of_ne (h : r.ending ≠ .returned) : r.andThen f = r := if_neg h

theorem andThen_congr (h : f r.books = g r.books) : r.andThen f = r.andThen g := by
  unfold andThen
  rw [h]

/-- A run that has come to its end has come to the end of its first part. -/
theorem ends_of_andThen (h : (r.andThen f).ending ≠ .unfinished) : r.ending ≠ .unfinished := by
  intro hunfinished
  rw [andThen_of_ne (by rw [hunfinished]; decide)] at h
  exact h hunfinished

/-- What every round keeps holds when the run returns. -/
def Preserves (S : Settings) (I : Books → Prop) (s : Books) (r : BuybackRun) : Prop :=
  I s → (∀ x ∈ r.rounds, I x.before → I (x.after S)) → r.ending = .returned → I r.books

theorem Preserves.andThen {I : Books → Prop} {s : Books} (h : r.Preserves S I s)
    (hf : (f r.books).Preserves S I r.books) : (r.andThen f).Preserves S I s := by
  intro hs hrounds hreturned
  by_cases hfirst : r.ending = .returned
  · rw [andThen_of_returned hfirst] at hrounds hreturned ⊢
    have hbooks := h hs (fun x hx => hrounds x (List.mem_append_left _ hx)) hfirst
    exact hf hbooks (fun x hx => hrounds x (List.mem_append_right _ hx)) hreturned
  · rw [andThen_of_ne hfirst] at hreturned
    exact absurd hreturned hfirst

end BuybackRun

open BuybackRun

/-! ### Rounds -/

section Rounds

variable {s : Books} {account assetToBuy nextAsset : ℕ} {allowed : Finset ℕ}

theorem nextHolding_spec {a : ℕ} (h : s.nextHolding account nextAsset = some a) :
    a ∈ s.assetsHeld account ∧ nextAsset ≤ a := by
  have hmem := List.min?_mem h
  rw [List.mem_filter, decide_eq_true_eq] at hmem
  exact hmem

theorem holdingStep_skip {a : ℕ} (h : s.holdingStep account assetToBuy allowed nextAsset = .skip a) :
    a ∈ s.assetsHeld account ∧ nextAsset ≤ a := by
  unfold Books.holdingStep at h
  split at h
  · cases h
  · next a' hnext =>
    split_ifs at h
    · cases h
      exact nextHolding_spec hnext
    · cases h
      exact nextHolding_spec hnext

theorem holdingStep_sell {round : BuybackRound}
    (h : s.holdingStep account assetToBuy allowed nextAsset = .sell round) :
    round.before = s ∧ round.assetToSell ∈ s.assetsHeld account ∧ nextAsset ≤ round.assetToSell := by
  unfold Books.holdingStep at h
  split at h
  · cases h
  · next a hnext =>
    split_ifs at h
    cases h
    exact ⟨rfl, nextHolding_spec hnext⟩

end Rounds

/-! ### The loop over the balances -/

section Loop

variable {S : Settings} {account assetToBuy : ℕ} {allowed : Finset ℕ}

theorem sellHoldings_preserves (I : Books → Prop) (fuel nextAsset : ℕ) (s : Books) :
    (sellHoldings S account assetToBuy allowed fuel nextAsset s).Preserves S I s := by
  induction fuel generalizing nextAsset s with
  | zero => exact fun hs _ _ => hs
  | succ fuel ih =>
    unfold sellHoldings
    cases hstep : s.holdingStep account assetToBuy allowed nextAsset with
    | finish => exact fun hs _ _ => hs
    | skip assetToSell => exact ih _ s
    | sell round =>
      obtain ⟨hbefore, -, -⟩ := holdingStep_sell hstep
      simp only
      split
      · exact fun _ _ hreturned => by cases hreturned
      · have hround : BuybackRun.Preserves S I s ⟨[round], .returned, round.after S⟩ :=
          fun hs hrounds _ => hrounds round (List.mem_singleton_self round) (hbefore ▸ hs)
        exact hround.andThen (ih _ _)

/-- More fuel does not change a run that has ended. -/
theorem sellHoldings_succ {fuel nextAsset : ℕ} {s : Books}
    (h : (sellHoldings S account assetToBuy allowed fuel nextAsset s).ending ≠ .unfinished) :
    sellHoldings S account assetToBuy allowed (fuel + 1) nextAsset s =
      sellHoldings S account assetToBuy allowed fuel nextAsset s := by
  induction fuel generalizing nextAsset s with
  | zero => exact absurd rfl h
  | succ fuel ih =>
    rw [sellHoldings]
    conv_rhs => rw [sellHoldings]
    rw [sellHoldings] at h
    cases hstep : s.holdingStep account assetToBuy allowed nextAsset with
    | finish => rfl
    | skip assetToSell =>
      rw [hstep] at h
      exact ih h
    | sell round =>
      rw [hstep] at h
      simp only at h ⊢
      split
      · rfl
      · next hcaught =>
        rw [if_neg hcaught, andThen_of_returned rfl] at h
        exact andThen_congr (ih h)

theorem sellHoldings_of_le {fuel fuel' nextAsset : ℕ} {s : Books} (hle : fuel ≤ fuel')
    (h : (sellHoldings S account assetToBuy allowed fuel nextAsset s).ending ≠ .unfinished) :
    sellHoldings S account assetToBuy allowed fuel' nextAsset s =
      sellHoldings S account assetToBuy allowed fuel nextAsset s := by
  induction fuel', hle using Nat.le_induction with
  | base => rfl
  | succ fuel' _ ih => rw [sellHoldings_succ (by rwa [ih]), ih]

/-- How many assets there are from an id on, and then how many of the balances of an account. -/
def Books.ahead (s : Books) (account nextAsset : ℕ) : ℕ ×ₗ ℕ :=
  toLex ((s.assets.keys.toFinset.filter (nextAsset ≤ ·)).card,
    ((s.assetsHeld account).toFinset.filter (nextAsset ≤ ·)).card)

theorem card_filter_succ_lt {l : Finset ℕ} {nextAsset a : ℕ} (ha : a ∈ l) (hle : nextAsset ≤ a) :
    (l.filter (a + 1 ≤ ·)).card < (l.filter (nextAsset ≤ ·)).card := by
  refine Finset.card_lt_card (Finset.ssubset_iff_of_subset ?_ |>.mpr ⟨a, ?_, ?_⟩)
  · exact Finset.monotone_filter_right l fun k _ hk => by omega
  · exact Finset.mem_filter.mpr ⟨ha, hle⟩
  · exact fun h => absurd (Finset.mem_filter.mp h).2 (Nat.not_succ_le_self a)

theorem card_filter_succ_le {l : Finset ℕ} {nextAsset a : ℕ} (hle : nextAsset ≤ a) :
    (l.filter (a + 1 ≤ ·)).card ≤ (l.filter (nextAsset ≤ ·)).card :=
  Finset.card_le_card (Finset.monotone_filter_right l fun k _ hk => by omega)

/-- A balance is behind when nothing has changed. -/
theorem ahead_lt_of_held {s : Books} {nextAsset a : ℕ} (ha : a ∈ s.assetsHeld account) (hle : nextAsset ≤ a) :
    s.ahead account (a + 1) < s.ahead account nextAsset := by
  have hheld := card_filter_succ_lt (List.mem_toFinset.mpr ha) hle
  rw [Books.ahead, Books.ahead, Prod.Lex.toLex_lt_toLex]
  rcases lt_or_eq_of_le (card_filter_succ_le (l := s.assets.keys.toFinset) hle) with hlt | heq
  · exact .inl hlt
  · exact .inr ⟨heq, hheld⟩

/-- An asset is behind, whatever the balances are then. -/
theorem ahead_lt_of_exists {s s' : Books} {nextAsset a : ℕ} (hassets : s'.assets = s.assets) (ha : a ∈ s.assets)
    (hle : nextAsset ≤ a) : s'.ahead account (a + 1) < s.ahead account nextAsset := by
  rw [Books.ahead, Books.ahead, hassets, Prod.Lex.toLex_lt_toLex]
  exact .inl (card_filter_succ_lt (List.mem_toFinset.mpr ha) hle)

theorem ahead_after_lt {s : Books} {nextAsset : ℕ} {round : BuybackRound}
    (h : s.holdingStep account assetToBuy allowed nextAsset = .sell round) :
    (round.after S).ahead account (round.assetToSell + 1) < s.ahead account nextAsset := by
  obtain ⟨rfl, hheld, hle⟩ := holdingStep_sell h
  by_cases haccepted : round.createVop.Accepted S round.before
  · obtain ⟨-, -, -, ⟨a, ha⟩, -⟩ := LimitOrderCreate.checks_of_accepted haccepted
    have hexists : round.assetToSell ∈ round.before.assets :=
      AList.lookup_isSome.mp (Option.isSome_iff_exists.mpr ⟨a, ha⟩)
    exact ahead_lt_of_exists (round.oneNewOrder_of_accepted haccepted).assets hexists hle
  · rw [(round.caught_of_refused haccepted).2]
    exact ahead_lt_of_held hheld hle

/-- **The loop over the balances ends.** -/
theorem sellHoldings_ends (nextAsset : ℕ) (s : Books) :
    ∃ fuel, (sellHoldings S account assetToBuy allowed fuel nextAsset s).ending ≠ .unfinished := by
  induction hahead : s.ahead account nextAsset using WellFoundedLT.induction generalizing nextAsset s with
  | ind p ih =>
    subst hahead
    cases hstep : s.holdingStep account assetToBuy allowed nextAsset with
    | finish =>
      refine ⟨1, ?_⟩
      rw [sellHoldings, hstep]
      exact Ending.noConfusion
    | skip assetToSell =>
      obtain ⟨hheld, hle⟩ := holdingStep_skip hstep
      obtain ⟨fuel, hends⟩ := ih _ (ahead_lt_of_held hheld hle) _ _ rfl
      refine ⟨fuel + 1, ?_⟩
      rwa [sellHoldings, hstep]
    | sell round =>
      obtain ⟨fuel, hends⟩ := ih _ (ahead_after_lt hstep) _ _ rfl
      refine ⟨fuel + 1, ?_⟩
      rw [sellHoldings, hstep]
      simp only
      split
      · exact Ending.noConfusion
      · rwa [andThen_of_returned rfl]

end Loop

/-! ### All buyback accounts -/

section Accounts

variable {S : Settings} {allowedAssets : Table ℕ (Option (Finset ℕ))}

theorem createBuybackOrders_preserves (I : Books → Prop) (fuel : ℕ) (bbos : List ℕ) (s : Books) :
    (createBuybackOrders S allowedAssets fuel bbos s).Preserves S I s := by
  induction bbos generalizing s with
  | nil => exact fun hs _ _ => hs
  | cons assetToBuy bbos ih =>
    unfold createBuybackOrders
    match buybackAccount allowedAssets assetToBuy s with
    | .error e => exact fun _ _ hreturned => by cases hreturned
    | .ok (_, none) => exact ih s
    | .ok (account, some allowed) => exact (sellHoldings_preserves I fuel 0 s).andThen (ih _)

theorem createBuybackOrders_of_le {fuel fuel' : ℕ} {bbos : List ℕ} {s : Books} (hle : fuel ≤ fuel')
    (h : (createBuybackOrders S allowedAssets fuel bbos s).ending ≠ .unfinished) :
    createBuybackOrders S allowedAssets fuel' bbos s = createBuybackOrders S allowedAssets fuel bbos s := by
  induction bbos generalizing s with
  | nil => rfl
  | cons assetToBuy bbos ih =>
    unfold createBuybackOrders at h ⊢
    match haccount : buybackAccount allowedAssets assetToBuy s with
    | .error e => rfl
    | .ok (_, none) =>
      rw [haccount] at h
      exact ih h
    | .ok (account, some allowed) =>
      rw [haccount] at h
      simp only at h ⊢
      rw [sellHoldings_of_le hle (ends_of_andThen h)]
      by_cases hfirst : (sellHoldings S account assetToBuy allowed fuel 0 s).ending = .returned
      · rw [andThen_of_returned hfirst] at h
        exact andThen_congr (ih h)
      · rw [andThen_of_ne hfirst, andThen_of_ne hfirst]

/-- **`create_buyback_orders` ends.** -/
theorem createBuybackOrders_ends (bbos : List ℕ) (s : Books) :
    ∃ fuel, (createBuybackOrders S allowedAssets fuel bbos s).ending ≠ .unfinished := by
  induction bbos generalizing s with
  | nil => exact ⟨0, Ending.noConfusion⟩
  | cons assetToBuy bbos ih =>
    unfold createBuybackOrders
    match buybackAccount allowedAssets assetToBuy s with
    | .error e => exact ⟨0, Ending.noConfusion⟩
    | .ok (_, none) => exact ih s
    | .ok (account, some allowed) =>
      have hloop : ∃ fuel, (sellHoldings S account assetToBuy allowed fuel 0 s).ending ≠ .unfinished :=
        sellHoldings_ends 0 s
      obtain ⟨fuel, hfirst⟩ := hloop
      obtain ⟨fuel', hrest⟩ := ih (sellHoldings S account assetToBuy allowed fuel 0 s).books
      -- enough for both
      refine ⟨max fuel fuel', ?_⟩
      simp only
      rw [sellHoldings_of_le (le_max_left _ _) hfirst]
      by_cases hreturned : (sellHoldings S account assetToBuy allowed fuel 0 s).ending = .returned
      · rw [andThen_of_returned hreturned]
        simp only
        rwa [createBuybackOrders_of_le (le_max_right _ _) hrest]
      · rwa [andThen_of_ne hreturned]

end Accounts

/-! ### What is left behind -/

/-- Nothing is left half done: `create_buyback_orders` ends, when it has returned no limit order is open that
was created by it, and no round that ended in the catch branch has changed the objects. -/
structure LeavesNothing (S : Settings) (allowedAssets : Table ℕ (Option (Finset ℕ))) (bbos : List ℕ) (s : Books) :
    Prop where
  ends : ∃ fuel, (createBuybackOrders S allowedAssets fuel bbos s).ending ≠ .unfinished
  closed : ∀ fuel, (createBuybackOrders S allowedAssets fuel bbos s).ending = .returned →
    ∀ id, s.limitOrders.next ≤ id →
      (createBuybackOrders S allowedAssets fuel bbos s).books.limitOrders.lookup id = none
  restored : ∀ fuel, ∀ r ∈ (createBuybackOrders S allowedAssets fuel bbos s).rounds, r.caught S ≠ none →
    r.after S = r.before

/-- No exception comes after the checks: in each round whose order passes the checks of `limit_order_create`,
neither the application of the operation nor the cancelling of what is left throws. -/
def Completes (S : Settings) (allowedAssets : Table ℕ (Option (Finset ℕ))) (bbos : List ℕ) (s : Books) : Prop :=
  ∀ fuel, ∀ r ∈ (createBuybackOrders S allowedAssets fuel bbos s).rounds,
    r.createVop.Accepted S r.before → r.caught S = none

/-- The limit orders from an id on are gone. -/
structure GoneFrom (n : ℕ) (s : Books) : Prop where
  le : n ≤ s.limitOrders.next
  gone : ∀ id, n ≤ id → s.limitOrders.lookup id = none

theorem goneFrom_next (s : Books) : GoneFrom s.limitOrders.next s where
  le := le_rfl
  gone id hid := AList.lookup_eq_none.mpr fun hmem => absurd (s.limitOrders.fresh id hmem) (Nat.not_lt.mpr hid)

/-- A round that completes leaves no order. -/
theorem GoneFrom.after {S : Settings} {n : ℕ} {r : BuybackRound} (h : GoneFrom n r.before)
    (hr : r.createVop.Accepted S r.before → r.caught S = none) : GoneFrom n (r.after S) := by
  by_cases haccepted : r.createVop.Accepted S r.before
  · have hnew := r.oneNewOrder_of_accepted haccepted
    refine ⟨?_, fun id hid => ?_⟩
    · rw [hnew.next]
      exact Nat.le_succ_of_le h.le
    · by_cases hid' : id = r.before.limitOrders.next
      · rw [hid']
        exact r.gone_of_completes (hr haccepted)
      · exact hnew.gone id hid' (h.gone id hid)
  · rwa [(r.caught_of_refused haccepted).2]

/-- **Buyback processing leaves nothing half done** just if no exception comes after the checks. -/
theorem leavesNothing_iff_completes (S : Settings) (allowedAssets : Table ℕ (Option (Finset ℕ))) (bbos : List ℕ)
    (s : Books) : LeavesNothing S allowedAssets bbos s ↔ Completes S allowedAssets bbos s := by
  constructor
  · intro h fuel r hr haccepted
    by_contra hcaught
    -- an order was created, so that the next id is another one
    have hnext := (r.oneNewOrder_of_accepted haccepted).next
    rw [h.restored fuel r hr hcaught] at hnext
    exact Nat.succ_ne_self _ hnext.symm
  · intro h
    refine ⟨createBuybackOrders_ends bbos s, fun fuel hreturned => ?_, fun fuel r hr hcaught => ?_⟩
    · have hgone := createBuybackOrders_preserves (GoneFrom s.limitOrders.next) fuel bbos s (goneFrom_next s)
        (fun r hr hbefore => hbefore.after (h fuel r hr)) hreturned
      exact hgone.gone
    · by_cases haccepted : r.createVop.Accepted S r.before
      · exact absurd (h fuel r hr haccepted) hcaught
      · exact (r.caught_of_refused haccepted).2

section Example

/-- The bitasset 1 is backed by the asset 2. Its feed has come to demand a margin call that has not been checked
yet; at the price of the only offer the debt would be worth more than the largest share supply. The buyback
account of the asset 3 holds some of the bitasset. -/
private def overdue : Books :=
  { smallChain with
    assets := List.toAList
      [⟨core, ⟨committee, 8, .plain maxShareSupply ∅ ⟨⟨1, core⟩, ⟨1, core⟩⟩, none⟩⟩,
        ⟨1, ⟨10, 8, .plain maxShareSupply ∅ ⟨⟨1, core⟩, ⟨1, 1⟩⟩, none⟩⟩,
        ⟨2, ⟨11, 8, .plain maxShareSupply ∅ ⟨⟨1, core⟩, ⟨1, 2⟩⟩, none⟩⟩,
        ⟨3, ⟨11, 8, .plain maxShareSupply ∅ ⟨⟨1, core⟩, ⟨1, 3⟩⟩, some 12⟩⟩]
    dynamicData := List.toAList
      [⟨core, ⟨10 ^ 12, 0, 0, 0⟩⟩, ⟨1, ⟨10 ^ 9, 0, 0, 0⟩⟩, ⟨2, ⟨10 ^ 18, 0, 0, 0⟩⟩, ⟨3, ⟨500, 0, 0, 0⟩⟩]
    bitassets := AList.singleton 1
      { options := ⟨86400, 1, 86400, 0, 2000, 2, Nat.one_pos, Nat.zero_le _, fifth_le_hundredPercent⟩
        currentFeed := ⟨⟨⟨1, 1⟩, ⟨8 * 10 ^ 8, 2⟩⟩, ⟨⟨1, 1⟩, ⟨1, core⟩⟩, 1750, 1500⟩
        isPredictionMarket := false }
    balances := List.toAList
      [⟨(10, core), { balance := 10 ^ 12 }⟩, ⟨(10, 1), { balance := 10 ^ 9 - 15 }⟩, ⟨(12, 1), { balance := 5 }⟩,
        ⟨(11, 3), { balance := 500 }⟩]
    statistics := List.toAList [⟨10, ⟨0, 0, 0⟩⟩, ⟨11, ⟨0, 0, 0⟩⟩, ⟨12, ⟨0, 0, 0⟩⟩]
    limitOrders := Index.empty.create ⟨1600000000, 10, 10, ⟨⟨10, 1⟩, ⟨11 * 10 ^ 9, 2⟩⟩, 0⟩
    callOrders := Index.empty.create ⟨10, 10 ^ 18, 10 ^ 9, ⟨⟨4 * 10 ^ 9, 2⟩, ⟨7, 1⟩⟩⟩ }

/-- The account may hold the two assets. -/
private def allowedOnOverdue : Table ℕ (Option (Finset ℕ)) := AList.singleton 12 (some {1, 3})

theorem not_leavesNothing : ¬ ∀ (S : Settings) (allowedAssets : Table ℕ (Option (Finset ℕ))) (bbos : List ℕ)
    (s : Books), LeavesNothing S allowedAssets bbos s := by
  intro h
  have hreturned : (createBuybackOrders smallSettings allowedOnOverdue 2 [3] overdue).ending = .returned := by
    decide +kernel
  -- the order that was created is still there
  have hopen : (createBuybackOrders smallSettings allowedOnOverdue 2 [3] overdue).books.limitOrders.lookup 1 ≠
      none := by decide +kernel
  exact hopen ((h smallSettings allowedOnOverdue [3] overdue).closed 2 hreturned 1 le_rfl)

end Example

end FinChain.Ledger
