import FinChain.Lib.Loops
import FinChain.Ledger.CallPrices
import Mathlib.Tactic.FieldSimp

/-!
# Prices that are made to fit

`price::call_price` and `price_feed::max_short_squeeze_price` once more, with the numbers that are formed in 128
bits. Each multiplies two fractions and then halves both parts of the product, in its own way of
rounding up, until they are amounts. A part that is larger than two loses about half of itself in every round and no part
becomes zero, so that the loop comes to an end after a few rounds (`shrinkRounds_spec`).

The numbers stay far below the limit (`mulRational_eq`), and a fraction whose parts are amounts is not touched.
-/

namespace FinChain.Ledger

open Exec

/-- How a price is not computed. -/
inductive RationalFault
  /-- A number does not fit an `int128_t`. -/
  | overflow
  /-- `boost::bad_rational` -/
  | badRational
  /-- A failed `FC_ASSERT`. -/
  | assertion

/-- A number that has to be an `int128_t`. -/
def int128 (x : ℤ) : Except RationalFault ℤ :=
  if -2 ^ 127 ≤ x ∧ x < 2 ^ 127 then .ok x else .error .overflow

/-- `boost::rational<int128_t>( num, den )`, which is kept in lowest terms. -/
def makeRational (num den : ℤ) : Except RationalFault ℚ := do
  let num ← int128 num
  let den ← int128 den
  check .badRational (den ≠ 0)
  return Rat.divInt num den

/-- `operator *` of two `boost::rational<int128_t>`. What the factors have in common is divided out before they are
multiplied. -/
def mulRational (a b : ℚ) : Except RationalFault ℚ := do
  let gcd1 : ℤ := a.num.gcd b.den
  let gcd2 : ℤ := b.num.gcd a.den
  let num ← int128 (a.num / gcd1 * (b.num / gcd2))
  let den ← int128 (a.den / gcd2 * (b.den / gcd1))
  return Rat.divInt num den

/-- `( n >> 1 )+1` -/
def halfPlusOne (n : ℤ) : ℤ := n / 2 + 1

/-- `( n >> 1 )+( n&1 )` -/
def halfRoundedUp (n : ℤ) : ℤ := n / 2 + n % 2

/-- The `while` loops, with their bodies. -/
def shrinkRound (half : ℤ → ℤ) (cp : ℚ) : Except RationalFault (ℚ ⊕ ℚ) :=
  if maxShareSupply < cp.num ∨ maxShareSupply < cp.den then do
    return .inl (← makeRational (half cp.num) (half cp.den))
  else return .inr cp

/-- The loop, for so many rounds. -/
def shrinkRounds (half : ℤ → ℤ) : ℕ → ℚ → EStateM RationalFault Unit ℚ
  | 0, cp => pure cp
  | rounds + 1, cp => lift (shrinkRound half cp) >>= Sum.elim (shrinkRounds half rounds) pure

/-- `price::call_price` -/
def callPriceIn (debt collateral : Asset) (collateralRatio : ℕ) : EStateM RationalFault Unit Price := do
  let swan ← lift (makeRational debt.amount collateral.amount)
  let ratio ← lift (makeRational collateralRatio collateralRatioDenom)
  let cp ← lift (mulRational swan ratio)
  let cp ← shrinkRounds halfPlusOne 128 cp
  assert .assertion (debt.assetId ≠ collateral.assetId)
  return ⟨⟨cp.den, collateral.assetId⟩, ⟨cp.num, debt.assetId⟩⟩

/-- `price_feed::max_short_squeeze_price` -/
def PriceFeed.maxShortSqueezePriceIn (f : PriceFeed) : EStateM RationalFault Unit Price := do
  let sp ← lift (makeRational f.settlementPrice.base.amount f.settlementPrice.quote.amount)
  let ratio ← lift (makeRational collateralRatioDenom f.maximumShortSqueezeRatio)
  let cp ← lift (mulRational sp ratio)
  let cp ← shrinkRounds halfRoundedUp 128 cp
  assert .assertion (f.settlementPrice.base.assetId ≠ f.settlementPrice.quote.assetId)
  return ⟨⟨cp.num, f.settlementPrice.base.assetId⟩, ⟨cp.den, f.settlementPrice.quote.assetId⟩⟩

/-- The squeeze price before it is made of small numbers. -/
def PriceFeed.exactSqueezePrice (f : PriceFeed) : ℚ :=
  Rat.divInt f.settlementPrice.base.amount f.settlementPrice.quote.amount *
    Rat.divInt collateralRatioDenom f.maximumShortSqueezeRatio

/-! ### Fractions -/

section Fractions

variable {x y : ℤ} {a b : ℚ}

theorem int128_of_lt (hpos : 0 ≤ x) (hlt : x < 2 ^ 127) : int128 x = .ok x :=
  if_pos ⟨le_trans (by decide) hpos, hlt⟩

theorem makeRational_eq (hx : 0 ≤ x) (hx' : x < 2 ^ 127) (hy : 0 < y) (hy' : y < 2 ^ 127) :
    makeRational x y = .ok (Rat.divInt x y) := by
  have hcheck : check RationalFault.badRational (y ≠ 0) = .ok () := if_pos hy.ne'
  unfold makeRational
  rw [int128_of_lt hx hx', int128_of_lt hy.le hy']
  show (check RationalFault.badRational (y ≠ 0) >>= fun _ => pure (Rat.divInt x y)) = _
  rw [hcheck]
  rfl

/-- Dividing out first does not change the product. -/
theorem mul_eq_crossReduced (a b : ℚ) :
    Rat.divInt (a.num / (a.num.gcd b.den : ℤ) * (b.num / (b.num.gcd a.den : ℤ)))
      (a.den / (b.num.gcd a.den : ℤ) * (b.den / (a.num.gcd b.den : ℤ))) = a * b := by
  have hgcd1 : ((a.num.gcd b.den : ℤ) : ℚ) ≠ 0 := by
    exact_mod_cast (Int.gcd_pos_of_ne_zero_right _ (Int.natCast_ne_zero.mpr b.den_nz)).ne'
  have hgcd2 : ((b.num.gcd a.den : ℤ) : ℚ) ≠ 0 := by
    exact_mod_cast (Int.gcd_pos_of_ne_zero_right _ (Int.natCast_ne_zero.mpr a.den_nz)).ne'
  have ha : (a.den : ℚ) ≠ 0 := by exact_mod_cast a.den_nz
  have hb : (b.den : ℚ) ≠ 0 := by exact_mod_cast b.den_nz
  rw [Rat.divInt_eq_div, Int.cast_mul, Int.cast_mul, Int.cast_div (Int.gcd_dvd_left _ _) hgcd1,
    Int.cast_div (Int.gcd_dvd_left _ _) hgcd2, Int.cast_div (Int.gcd_dvd_right _ _) hgcd2,
    Int.cast_div (Int.gcd_dvd_right _ _) hgcd1]
  conv_rhs => rw [← Rat.num_div_den a, ← Rat.num_div_den b]
  push_cast
  field_simp

/-- The numbers that a product forms are no larger than the products of the parts. -/
theorem mulRational_eq (ha : 0 < a.num) (hb : 0 < b.num) (hnum : a.num * b.num < 2 ^ 127)
    (hden : (a.den * b.den : ℤ) < 2 ^ 127) : mulRational a b = .ok (a * b) := by
  have hle : ∀ {x y : ℤ} {m n : ℕ}, 0 < x → 0 < y → 0 ≤ x / m * (y / n) ∧ x / m * (y / n) ≤ x * y := by
    intro x y m n hx hy
    have hxm := Int.ediv_nonneg hx.le (Int.natCast_nonneg m)
    have hyn := Int.ediv_nonneg hy.le (Int.natCast_nonneg n)
    exact ⟨mul_nonneg hxm hyn, mul_le_mul (Int.ediv_le_self _ hx.le) (Int.ediv_le_self _ hy.le) hyn hx.le⟩
  have hda : (0 : ℤ) < a.den := Int.natCast_pos.mpr a.den_pos
  have hdb : (0 : ℤ) < b.den := Int.natCast_pos.mpr b.den_pos
  obtain ⟨hnum₀, hnum₁⟩ := hle (m := a.num.gcd b.den) (n := b.num.gcd a.den) ha hb
  obtain ⟨hden₀, hden₁⟩ := hle (m := b.num.gcd a.den) (n := a.num.gcd b.den) hda hdb
  unfold mulRational
  simp only [int128_of_lt hnum₀ (hnum₁.trans_lt hnum), int128_of_lt hden₀ (hden₁.trans_lt hden)]
  show Except.ok _ = _
  rw [mul_eq_crossReduced]

end Fractions

/-! ### The loop -/

/-- A way of halving that rounds up: nothing becomes zero, and what is large gets smaller. -/
structure HalvesUp (half : ℤ → ℤ) : Prop where
  pos : ∀ {n}, 0 < n → 0 < half n
  le : ∀ n, half n ≤ n / 2 + 1

theorem halvesUp_halfPlusOne : HalvesUp halfPlusOne := by
  refine ⟨fun {n} hn => ?_, fun n => le_rfl⟩
  unfold halfPlusOne
  omega

theorem halvesUp_halfRoundedUp : HalvesUp halfRoundedUp := by
  refine ⟨fun {n} hn => ?_, fun n => ?_⟩
  · unfold halfRoundedUp
    omega
  · unfold halfRoundedUp
    omega

/-- What the loop makes of a fraction: it ends with one whose parts are amounts, and leaves a fraction alone
that is of this kind already. -/
structure ShrinksTo (half : ℤ → ℤ) (exact cp : ℚ) : Prop where
  ends : Ends (fun cp => lift (shrinkRound half cp)) exact () (.ok cp ())
  num_mem : 1 ≤ cp.num ∧ cp.num ≤ maxShareSupply
  den_mem : 1 ≤ (cp.den : ℤ) ∧ (cp.den : ℤ) ≤ maxShareSupply
  eq_exact : Unrounded exact → cp = exact

section Loop

variable {half : ℤ → ℤ} {cp : ℚ}

theorem shrinkRound_of_unrounded (h : Unrounded cp) : shrinkRound half cp = .ok (.inr cp) := by
  have hsmall : ¬ (maxShareSupply < cp.num ∨ maxShareSupply < cp.den) := by
    rw [not_or, not_lt, not_lt]
    exact h
  exact if_neg hsmall

/-- **The loop** with `n` rounds left: if no part is above `2 ^ n * 10 ^ 17 + 2` it comes to its end. One round takes this
bound to the next, since the two that may be left over are halved and rounded up to two. -/
theorem shrinkRounds_spec (hhalf : HalvesUp half) (rounds : ℕ) (hpos : 0 < cp.num)
    (hnum : cp.num ≤ 2 ^ rounds * 10 ^ 17 + 2) (hden : (cp.den : ℤ) ≤ 2 ^ rounds * 10 ^ 17 + 2)
    (hnum' : cp.num < 2 ^ 126) (hden' : (cp.den : ℤ) < 2 ^ 126) :
    ShrinksTo half cp (Price.shrink half rounds cp) ∧
      shrinkRounds half rounds cp () = .ok (Price.shrink half rounds cp) () := by
  have hdenPos : (0 : ℤ) < cp.den := Int.natCast_pos.mpr cp.den_pos
  induction rounds generalizing cp with
  | zero =>
    have hsmall : Unrounded cp := by
      unfold Unrounded maxShareSupply
      omega
    refine ⟨⟨.done ?_, ⟨hpos, hsmall.1⟩, ⟨hdenPos, hsmall.2⟩, fun _ => rfl⟩, rfl⟩
    rw [shrinkRound_of_unrounded hsmall]
    rfl
  | succ rounds ih =>
    by_cases hsmall : Unrounded cp
    · have hround : shrinkRound half cp = .ok (.inr cp) := shrinkRound_of_unrounded hsmall
      have hshrink : Price.shrink half (rounds + 1) cp = cp := by
        rw [Price.shrink, if_neg]
        rw [not_or, not_lt, not_lt]
        exact hsmall
      rw [hshrink]
      refine ⟨⟨.done ?_, ⟨hpos, hsmall.1⟩, ⟨hdenPos, hsmall.2⟩, fun _ => rfl⟩, ?_⟩
      · rw [hround]
        rfl
      · rw [shrinkRounds, bind_apply, hround]
        rfl
    · have hlarge : maxShareSupply < cp.num ∨ maxShareSupply < cp.den := by
        rw [Unrounded, not_and_or, not_le, not_le] at hsmall
        exact hsmall
      have hnumLe := hhalf.le cp.num
      have hdenLe := hhalf.le cp.den
      have hnumPos := hhalf.pos hpos
      have hhalfDen := hhalf.pos hdenPos
      have hround : shrinkRound half cp = .ok (.inl (Rat.divInt (half cp.num) (half cp.den))) := by
        rw [shrinkRound, if_pos hlarge, makeRational_eq hnumPos.le (by omega) hhalfDen (by omega)]
        rfl
      have hbound : (2 : ℤ) ^ (rounds + 1) * 10 ^ 17 = 2 * (2 ^ rounds * 10 ^ 17) := by ring
      rw [hbound] at hnum hden
      -- lowest terms make the parts smaller still
      obtain ⟨hpos', hnumDvd, hdenDvd⟩ := divInt_le hnumPos hhalfDen
      obtain ⟨⟨hends, hnumMem, hdenMem, -⟩, hrun⟩ := ih hpos' (hnumDvd.trans (by omega))
        (hdenDvd.trans (by omega)) (hnumDvd.trans_lt (by omega)) (hdenDvd.trans_lt (by omega))
        (Int.natCast_pos.mpr (Rat.den_pos _))
      have hshrink : Price.shrink half (rounds + 1) cp =
          Price.shrink half rounds (Rat.divInt (half cp.num) (half cp.den)) := by
        rw [Price.shrink, if_pos hlarge]
      rw [hshrink]
      refine ⟨⟨.again ?_ hends, hnumMem, hdenMem, fun h => absurd h hsmall⟩, ?_⟩
      · rw [hround]
        rfl
      · rw [shrinkRounds, bind_apply, hround]
        exact hrun

/-- A product of two fractions whose parts are small, and what the loop makes of it. -/
theorem shrink_product (hhalf : HalvesUp half) {n d m k : ℤ} (hn : 0 < n) (hn' : n < 2 ^ 63) (hd : 0 < d)
    (hd' : d < 2 ^ 63) (hm : 0 < m) (hm' : m < 2 ^ 16) (hk : 0 < k) (hk' : k < 2 ^ 16) :
    ∃ exact cp, exact = Rat.divInt n d * Rat.divInt m k ∧ cp = Price.shrink half 128 exact ∧
      makeRational n d = .ok (Rat.divInt n d) ∧ makeRational m k = .ok (Rat.divInt m k) ∧
      mulRational (Rat.divInt n d) (Rat.divInt m k) = .ok exact ∧ shrinkRounds half 128 exact () = .ok cp () ∧
      ShrinksTo half exact cp := by
  obtain ⟨hnum₁, hnumLe₁, hdenLe₁⟩ := divInt_le hn hd
  obtain ⟨hnum₂, hnumLe₂, hdenLe₂⟩ := divInt_le hm hk
  have hbound : (2 : ℤ) ^ 79 < 2 ^ 126 := by norm_num
  have hproduct : n * m < 2 ^ 79 ∧ d * k < 2 ^ 79 := by
    have hmul : ∀ {x y : ℤ}, 0 < x → x < 2 ^ 63 → 0 < y → y < 2 ^ 16 → x * y < 2 ^ 79 := fun {x y} hx hx' hy hy' =>
      calc x * y < 2 ^ 63 * y := mul_lt_mul_of_pos_right hx' hy
        _ ≤ 2 ^ 63 * 2 ^ 16 := mul_le_mul_of_nonneg_left hy'.le (by norm_num)
        _ = 2 ^ 79 := by norm_num
    exact ⟨hmul hn hn' hm hm', hmul hd hd' hk hk'⟩
  have hdenPos₁ : (0 : ℤ) < (Rat.divInt n d).den := Int.natCast_pos.mpr (Rat.den_pos _)
  have hdenPos₂ : (0 : ℤ) < (Rat.divInt m k).den := Int.natCast_pos.mpr (Rat.den_pos _)
  have hnums : (Rat.divInt n d).num * (Rat.divInt m k).num ≤ n * m :=
    mul_le_mul hnumLe₁ hnumLe₂ hnum₂.le hn.le
  have hdens : ((Rat.divInt n d).den * (Rat.divInt m k).den : ℤ) ≤ d * k :=
    mul_le_mul hdenLe₁ hdenLe₂ hdenPos₂.le hd.le
  have hproductEq : Rat.divInt n d * Rat.divInt m k = Rat.divInt (n * m) (d * k) := Rat.divInt_mul_divInt _ _
  obtain ⟨hpos, hnumLe, hdenLe⟩ := divInt_le (mul_pos hn hm) (mul_pos hd hk)
  rw [← hproductEq] at hpos hnumLe hdenLe
  have hwide : (2 : ℤ) ^ 79 ≤ 2 ^ 128 * 10 ^ 17 + 2 := by norm_num
  obtain ⟨hshrinks, hrun⟩ := shrinkRounds_spec hhalf 128 hpos ((hnumLe.trans hproduct.1.le).trans hwide)
    ((hdenLe.trans hproduct.2.le).trans hwide) ((hnumLe.trans_lt hproduct.1).trans hbound)
    ((hdenLe.trans_lt hproduct.2).trans hbound)
  refine ⟨_, _, rfl, rfl, makeRational_eq hn.le (by omega) hd (by omega),
    makeRational_eq hm.le (by omega) hk (by omega), mulRational_eq hnum₁ hnum₂ ?_ ?_, hrun, hshrinks⟩
  · exact (hnums.trans_lt hproduct.1).trans (by norm_num)
  · exact (hdens.trans_lt hproduct.2).trans (by norm_num)

end Loop

/-! ### Call prices and squeeze prices -/

/-- **Call and squeeze prices are representable.** For every debt and collateral, every settlement price whose
amounts are positive and every ratio that a feed may have, the loops come to an end, with a fraction whose
parts are amounts; no number leaves its 128 bits; the prices are the ones of the exact computation; and a ratio
whose reduced parts are amounts is the price itself. -/
theorem prices_representable :
    (∀ (debt collateral : Asset) (ratio : ℕ), 1 ≤ debt.amount → debt.amount ≤ maxShareSupply →
      1 ≤ collateral.amount → collateral.amount ≤ maxShareSupply → debt.assetId ≠ collateral.assetId →
      PriceFeed.RatioInRange ratio →
      ∃ cp, ShrinksTo halfPlusOne (exactCallPrice debt.amount collateral.amount ratio) cp ∧
        callPriceIn debt collateral ratio () =
          .ok ⟨⟨cp.den, collateral.assetId⟩, ⟨cp.num, debt.assetId⟩⟩ () ∧
        Price.callPrice debt collateral ratio =
          .ok ⟨⟨cp.den, collateral.assetId⟩, ⟨cp.num, debt.assetId⟩⟩) ∧
    (∀ f : PriceFeed, 0 < f.settlementPrice.base.amount → FitsShare f.settlementPrice.base.amount →
      0 < f.settlementPrice.quote.amount → FitsShare f.settlementPrice.quote.amount →
      f.settlementPrice.base.assetId ≠ f.settlementPrice.quote.assetId →
      PriceFeed.RatioInRange f.maximumShortSqueezeRatio →
      ∃ cp, ShrinksTo halfRoundedUp f.exactSqueezePrice cp ∧
        f.maxShortSqueezePriceIn () =
          .ok ⟨⟨cp.num, f.settlementPrice.base.assetId⟩, ⟨cp.den, f.settlementPrice.quote.assetId⟩⟩ () ∧
        f.maxShortSqueezePrice =
          .ok ⟨⟨cp.num, f.settlementPrice.base.assetId⟩, ⟨cp.den, f.settlementPrice.quote.assetId⟩⟩) := by
  have hassert : ∀ {p : Prop} [Decidable p], p →
      (assert RationalFault.assertion p : EStateM RationalFault Unit Unit) () = .ok () () := fun hp => by
    rw [assert, if_pos hp]
    rfl
  have hlift : ∀ {x : Except RationalFault ℚ} {q : ℚ}, x = .ok q →
      (lift x : EStateM RationalFault Unit ℚ) () = .ok q () := fun h => by
    rw [h]
    rfl
  refine ⟨fun debt collateral ratio hdebt hdebt' hcollateral hcollateral' hassets hratio => ?_,
    fun f hbase hbase' hquote hquote' hassets hratio => ?_⟩
  · unfold maxShareSupply at hdebt' hcollateral'
    obtain ⟨hratio, hratio'⟩ := hratio
    obtain ⟨exact, cp, hexact, hcp, hswan, hfraction, hproduct, hrun, hshrinks⟩ :=
      shrink_product halvesUp_halfPlusOne (n := debt.amount) (d := collateral.amount) (m := ratio)
        (k := collateralRatioDenom) hdebt (by omega) hcollateral (by omega) (by omega) (by omega)
        (by decide) (by decide)
    have hshrinks' : ShrinksTo halfPlusOne (exactCallPrice debt.amount collateral.amount ratio) cp := by
      rwa [exactCallPrice, ← hexact]
    refine ⟨cp, hshrinks', ?_, ?_⟩
    · exact bind_eq_ok.mpr ⟨_, (), hlift hswan, bind_eq_ok.mpr ⟨_, (), hlift hfraction,
        bind_eq_ok.mpr ⟨_, (), hlift hproduct, bind_eq_ok.mpr ⟨_, (), hrun,
          bind_eq_ok.mpr ⟨(), (), hassert hassets, rfl⟩⟩⟩⟩⟩
    · have hdiv : Asset.div ⟨cp.num, debt.assetId⟩ ⟨cp.den, collateral.assetId⟩ =
          .ok ⟨⟨cp.num, debt.assetId⟩, ⟨cp.den, collateral.assetId⟩⟩ := if_pos hassets
      rw [hcp, hexact] at hdiv ⊢
      rw [Price.callPrice, if_neg (by omega)]
      exact congrArg (Except.map Price.inv) hdiv
  · obtain ⟨hratio, hratio'⟩ := hratio
    obtain ⟨exact, cp, hexact, hcp, hprice, hfraction, hproduct, hrun, hshrinks⟩ :=
      shrink_product halvesUp_halfRoundedUp (n := f.settlementPrice.base.amount)
        (d := f.settlementPrice.quote.amount) (m := collateralRatioDenom) (k := f.maximumShortSqueezeRatio)
        hbase hbase'.2 hquote hquote'.2 (by decide) (by decide) (by omega) (by omega)
    have hshrinks' : ShrinksTo halfRoundedUp f.exactSqueezePrice cp := by
      rwa [PriceFeed.exactSqueezePrice, ← hexact]
    refine ⟨cp, hshrinks', ?_, ?_⟩
    · exact bind_eq_ok.mpr ⟨_, (), hlift hprice, bind_eq_ok.mpr ⟨_, (), hlift hfraction,
        bind_eq_ok.mpr ⟨_, (), hlift hproduct, bind_eq_ok.mpr ⟨_, (), hrun,
          bind_eq_ok.mpr ⟨(), (), hassert hassets, rfl⟩⟩⟩⟩⟩
    · have hdiv : Asset.div ⟨cp.num, f.settlementPrice.base.assetId⟩ ⟨cp.den, f.settlementPrice.quote.assetId⟩ =
          .ok ⟨⟨cp.num, f.settlementPrice.base.assetId⟩, ⟨cp.den, f.settlementPrice.quote.assetId⟩⟩ :=
        if_pos hassets
      rw [hcp, hexact] at hdiv ⊢
      rw [PriceFeed.maxShortSqueezePrice, if_neg (by omega)]
      exact hdiv

/-- A feed with a very small settlement price. -/
def smallFeed : PriceFeed := ⟨⟨⟨1, 1⟩, ⟨2 ^ 63 - 1, 0⟩⟩, .null, 1750, 32000⟩

/-- The largest debt with the smallest collateral, and a price close to zero. -/
theorem prices_representable_extremes :
    (∃ cp, ShrinksTo halfPlusOne (exactCallPrice (10 ^ 18) 1 32000) cp ∧
      callPriceIn ⟨10 ^ 18, 1⟩ ⟨1, 0⟩ 32000 () = .ok ⟨⟨cp.den, 0⟩, ⟨cp.num, 1⟩⟩ () ∧
      Price.callPrice ⟨10 ^ 18, 1⟩ ⟨1, 0⟩ 32000 = .ok ⟨⟨cp.den, 0⟩, ⟨cp.num, 1⟩⟩) ∧
    (∃ cp, ShrinksTo halfRoundedUp smallFeed.exactSqueezePrice cp ∧
      smallFeed.maxShortSqueezePriceIn () = .ok ⟨⟨cp.num, 1⟩, ⟨cp.den, 0⟩⟩ () ∧
      smallFeed.maxShortSqueezePrice = .ok ⟨⟨cp.num, 1⟩, ⟨cp.den, 0⟩⟩) :=
  ⟨prices_representable.1 ⟨10 ^ 18, 1⟩ ⟨1, 0⟩ 32000 (by decide) (by decide) (by decide) (by decide) (by decide)
      (by decide),
    prices_representable.2 smallFeed (by decide) (by decide) (by decide) (by decide) (by decide) (by decide)⟩

end FinChain.Ledger
