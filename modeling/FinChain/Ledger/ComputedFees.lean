import FinChain.Ledger.FeeSchedule
import Mathlib.Tactic.Linarith
import Mathlib.Tactic.Ring

/-!
# Computed fees are minimal and accepted

A core exchange rate is between core and another asset, or it is `price::unit_price`; `Price.Exchanges` is
what is promised of one. `Price.Sides` names its two amounts by what they are, since core may be the base or
the quote of it.

The fee in core is divided down to the fee that is found, `s * q / b`. What this is worth may be less than
`s`, but one unit more is worth enough, and one unit less never is (`le_worth_next`, `worth_prev_lt`). So the
loop of `calculate_fee` raises the fee once at most, and the fee it ends with is the least one.

For `set_fee`, the size of an operation only depends on the asset of its fee. The second fee it computes is
in the asset of the first, and so is every other one, hence the second fee is computed again in the next
round, and the larger of the two is enough.
-/

namespace FinChain.Ledger

open Exec

/-! ### There and back again -/

section Rounding

variable {s q b : ℤ}

/-- A unit more than the rounded amount is worth enough. -/
theorem le_worth_next (hq : 0 < q) (hb : 0 < b) : s ≤ (s * q / b + 1) * b / q := by
  rw [Int.le_ediv_iff_mul_le hq]
  exact (Int.lt_ediv_add_one_mul_self (s * q) hb).le

theorem worth_prev_lt (hq : 0 < q) (hb : 0 < b) : (s * q / b - 1) * b / q < s := by
  rw [Int.ediv_lt_iff_lt_mul hq]
  have hdown : s * q / b * b ≤ s * q := Int.ediv_mul_le _ hb.ne'
  rw [sub_mul, one_mul]
  linarith

end Rounding

/-! ### Rates -/

/-- **A core exchange rate**: both amounts are positive numbers of their type, and the assets differ, or it
is a rate of one to one. -/
structure Price.Exchanges (p : Price) : Prop where
  base_pos : 0 < p.base.amount
  base_fits : p.base.amount < 2 ^ 63
  quote_pos : 0 < p.quote.amount
  quote_fits : p.quote.amount < 2 ^ 63
  even : p.base.assetId = p.quote.assetId → p.base.amount = p.quote.amount

/-- The amount of core in a rate, the other amount, and what is multiplied at the rate. -/
structure Price.Sides (p : Price) (b q : Asset) : Prop where
  inCore : b.assetId = core
  core_pos : 0 < b.amount
  core_fits : b.amount < 2 ^ 63
  other_pos : 0 < q.amount
  other_fits : q.amount < 2 ^ 63
  even : q.assetId = core → q.amount = b.amount
  mul_core : ∀ x, Asset.mul ⟨x, core⟩ p = Asset.convert x q b
  mul_other : ∀ x, Asset.mul ⟨x, q.assetId⟩ p = Asset.convert x b q

/-- A rate at which core can be converted has its sides. -/
theorem Price.Exchanges.sides {p : Price} (hp : p.Exchanges) {s : ℤ} {r : Asset}
    (h : Asset.mul ⟨s, core⟩ p = .ok r) : ∃ b q, p.Sides b q := by
  obtain ⟨⟨x, i⟩, ⟨y, j⟩⟩ := p
  by_cases hbase : core = i
  · -- core is the base
    subst hbase
    refine ⟨⟨x, core⟩, ⟨y, j⟩, rfl, hp.base_pos, hp.base_fits, hp.quote_pos, hp.quote_fits,
      fun hj => (hp.even hj.symm).symm, fun z => if_pos rfl, fun z => ?_⟩
    by_cases hj : j = core
    · -- one to one
      subst hj
      have heven : x = y := hp.even rfl
      rw [heven]
      exact if_pos rfl
    · change (if j = core then _ else if j = j then _ else _) = _
      rw [if_neg hj, if_pos rfl]
  · have hquote : core = j := by
      by_contra hne
      change (if core = i then _ else if core = j then _ else _) = _ at h
      rw [if_neg hbase, if_neg hne] at h
      cases h
    subst hquote
    refine ⟨⟨y, core⟩, ⟨x, i⟩, rfl, hp.quote_pos, hp.quote_fits, hp.base_pos, hp.base_fits,
      fun hi => absurd hi.symm hbase, fun z => ?_, fun z => if_pos rfl⟩
    change (if core = i then _ else if core = core then _ else _) = _
    rw [if_neg hbase, if_pos rfl]

/-- Without overflow, a conversion is a division, unless its result is too large. -/
theorem Asset.convert_eq_ite {x : ℤ} {num den : Asset} (hx : 0 ≤ x) (hx' : x < 2 ^ 64)
    (hnum : 0 ≤ num.amount) (hnum' : num.amount < 2 ^ 63) (hden : 0 < den.amount) :
    convert x num den = if x * num.amount / den.amount ≤ maxShareSupply then
      .ok ⟨x * num.amount / den.amount, num.assetId⟩ else .error .assertion := by
  have hnum64 : num.amount < 2 ^ 64 := hnum'.trans (by decide)
  unfold convert
  simp only
  rw [uint128_mul hx hx' hnum hnum64]
  simp only [hden, true_and]

/-- A debt of one unit is converted to a huge number, which is thrown. -/
theorem Asset.convert_neg_one {num den a : Asset} (hnum : 0 < num.amount) (hnum' : num.amount < 2 ^ 63)
    (hden' : den.amount < 2 ^ 63) : convert (-1) num den ≠ .ok a := by
  intro h
  obtain ⟨hden, hle, -⟩ := convert_eq_ok.mp h
  have hwrap : uint128 (uint128 (-1) * num.amount) = 2 ^ 128 - num.amount := by
    have hone : uint128 (-1) = 2 ^ 128 - 1 := rfl
    rw [hone]
    unfold uint128
    have hsplit : (2 ^ 128 - 1) * num.amount = 2 ^ 128 - num.amount + 2 ^ 128 * (num.amount - 1) := by ring
    rw [hsplit, Int.add_mul_emod_self_left]
    exact Int.emod_eq_of_lt (by omega) (by omega)
  rw [hwrap] at hle
  have hlarge : maxShareSupply < (2 ^ 128 - num.amount) / den.amount := by
    rw [Int.lt_iff_add_one_le, Int.le_ediv_iff_mul_le hden]
    calc (maxShareSupply + 1) * den.amount ≤ (maxShareSupply + 1) * 2 ^ 63 :=
          mul_le_mul_of_nonneg_left hden'.le (by decide)
      _ ≤ 2 ^ 128 - 2 ^ 63 := by decide
      _ ≤ 2 ^ 128 - num.amount := by omega
  exact absurd hle (not_le.mpr hlarge)

/-! ### The correction -/

variable {rate : Price} {b q : Asset} {scaled : ℤ}

theorem raiseUntil_succ_ok {assetId room : ℕ} {x r : ℤ} {n : ℕ}
    (h : raiseUntil rate scaled assetId (room + 1) x = .ok (r, n)) :
    ∃ worth : Asset, Asset.mul ⟨x, assetId⟩ rate = .ok worth ∧ worth.assetId = core ∧
      (worth.amount < scaled ∧ (∃ m, n = m + 1 ∧ raiseUntil rate scaled assetId room (x + 1) = .ok (r, m)) ∨
        scaled ≤ worth.amount ∧ r = x ∧ n = 0) := by
  unfold raiseUntil at h
  obtain ⟨worth, hworth, h⟩ := except_bind_eq_ok.mp h
  obtain ⟨less, hless, h⟩ := except_bind_eq_ok.mp h
  obtain ⟨hid, hlt⟩ := Asset.lt_eq_ok hless
  refine ⟨worth, hworth, hid, ?_⟩
  cases less with
  | true =>
    left
    rw [if_pos rfl] at h
    obtain ⟨⟨r', m⟩, hraised, h⟩ := except_bind_eq_ok.mp h
    cases h
    exact ⟨hlt.mp rfl, m, rfl, hraised⟩
  | false =>
    right
    rw [if_neg Bool.false_ne_true] at h
    cases h
    refine ⟨not_lt.mp fun hl => ?_, rfl, rfl⟩
    exact Bool.false_ne_true (hlt.mpr hl)

/-- All conversions of core are into one asset. -/
theorem Price.Sides.assetId_eq {b' q' : Asset} (hp : rate.Sides b q) (hp' : rate.Sides b' q') :
    q.assetId = q'.assetId := by
  have hzero : ∀ {b q : Asset}, rate.Sides b q → Asset.mul ⟨0, core⟩ rate = .ok ⟨0, q.assetId⟩ := by
    intro b q h
    rw [h.mul_core, Asset.convert_eq_ite le_rfl (by decide) h.other_pos.le h.other_fits h.core_pos, zero_mul,
      Int.zero_ediv, if_pos (by decide)]
  have hsame := Except.ok.inj ((hzero hp).symm.trans (hzero hp'))
  exact (Asset.mk.inj hsame).2

theorem Price.Sides.worth (hp : rate.Sides b q) {x : ℤ} {worth : Asset} (hx : 0 ≤ x) (hx' : x < 2 ^ 64)
    (h : Asset.mul ⟨x, q.assetId⟩ rate = .ok worth) : worth = ⟨x * b.amount / q.amount, core⟩ := by
  rw [hp.mul_other] at h
  have hfits : b.amount < 2 ^ 64 := hp.core_fits.trans (by decide)
  obtain ⟨-, rfl, -⟩ := Asset.convert_eq_div hx hx' hp.core_pos.le hfits h
  rw [hp.inCore]

/-- **The loop of `calculate_fee`** raises the fee once at most, and the fee is the least one. -/
theorem Price.Sides.raise (hp : rate.Sides b q) {room n : ℕ} {x r : ℤ} (hscaled : 0 ≤ scaled)
    (hx : x = scaled * q.amount / b.amount) (hx' : x < 2 ^ 63)
    (h : raiseUntil rate scaled q.assetId room x = .ok (r, n)) :
    n ≤ 1 ∧ r = x + n ∧
      (∃ worth, Asset.mul ⟨r, q.assetId⟩ rate = .ok ⟨worth, core⟩ ∧ scaled ≤ worth) ∧
      (r - 1) * b.amount / q.amount < scaled := by
  have hnonneg : 0 ≤ x := by
    rw [hx]
    exact Int.ediv_nonneg (mul_nonneg hscaled hp.other_pos.le) hp.core_pos.le
  cases room with
  | zero => cases h
  | succ room =>
    obtain ⟨⟨worth, i⟩, hworth, hi, hcase⟩ := raiseUntil_succ_ok h
    obtain rfl : i = core := hi
    have hvalue : worth = x * b.amount / q.amount :=
      congrArg Asset.amount (hp.worth hnonneg (by omega) hworth)
    obtain ⟨hlt, m, rfl, hnext⟩ | ⟨hle, rfl, rfl⟩ := hcase
    · -- it is raised, and then it is enough
      cases room with
      | zero => cases hnext
      | succ room =>
        obtain ⟨⟨worth', i⟩, hworth', hi', hcase'⟩ := raiseUntil_succ_ok hnext
        obtain rfl : i = core := hi'
        have hvalue' : worth' = (x + 1) * b.amount / q.amount :=
          congrArg Asset.amount (hp.worth (by omega) (by omega) hworth')
        have henough : scaled ≤ worth' := by
          rw [hvalue', hx]
          exact le_worth_next hp.other_pos hp.core_pos
        obtain ⟨hlt', -⟩ | ⟨-, rfl, rfl⟩ := hcase'
        · exact absurd henough (not_le.mpr hlt')
        · refine ⟨le_rfl, rfl, ⟨worth', hworth', henough⟩, ?_⟩
          rw [add_sub_cancel_right, ← hvalue]
          exact hlt
    · -- it is enough at once
      refine ⟨zero_le_one, (add_zero _).symm, ⟨worth, hworth, hle⟩, ?_⟩
      rw [hx]
      exact worth_prev_lt hp.other_pos hp.core_pos

theorem Price.Sides.worth_mono (hp : rate.Sides b q) {f g : Asset} {x y : ℤ} (hf : f.assetId = q.assetId)
    (hg : g.assetId = q.assetId) (hnonneg : 0 ≤ f.amount) (hle : f.amount ≤ g.amount)
    (hfits : g.amount ≤ maxShareSupply) (hx : f.mul rate = .ok ⟨x, core⟩)
    (hy : g.mul rate = .ok ⟨y, core⟩) : x ≤ y := by
  have hmax64 : maxShareSupply < 2 ^ 63 := by decide
  obtain ⟨f, i⟩ := f
  obtain ⟨g, j⟩ := g
  obtain rfl : i = q.assetId := hf
  obtain rfl : j = q.assetId := hg
  have hf0 : 0 ≤ f := hnonneg
  have hfg : f ≤ g := hle
  have hgmax : g ≤ maxShareSupply := hfits
  have hxf : x = f * b.amount / q.amount :=
    congrArg Asset.amount (hp.worth hf0 (by omega) hx)
  have hyg : y = g * b.amount / q.amount :=
    congrArg Asset.amount (hp.worth (by omega) (by omega) hy)
  rw [hxf, hyg]
  exact Int.ediv_le_ediv hp.other_pos (mul_le_mul_of_nonneg_right hfg hp.core_pos.le)

namespace FeeSchedule

theorem convertScaled_ok (hrate : rate.Exchanges) (hscaled : 0 ≤ scaled) (hmax : scaled ≤ maxShareSupply)
    {r : Asset} {n : ℕ} (h : convertScaled scaled rate = .ok (r, n)) :
    ∃ b q, rate.Sides b q ∧ r.assetId = q.assetId ∧ 0 ≤ r.amount ∧ r.amount ≤ maxShareSupply ∧ n ≤ 1 ∧
      (∃ worth, r.mul rate = .ok ⟨worth, core⟩ ∧ scaled ≤ worth) ∧
      ∀ x, Asset.mul ⟨r.amount - 1, r.assetId⟩ rate = .ok x → x.amount < scaled := by
  have hmax64 : maxShareSupply < 2 ^ 63 := by decide
  unfold convertScaled at h
  obtain ⟨result, hresult, h⟩ := except_bind_eq_ok.mp h
  obtain ⟨⟨raised, n'⟩, hraised, h⟩ := except_bind_eq_ok.mp h
  simp only at h
  split at h
  · next hle =>
    cases h
    obtain ⟨b, q, hp⟩ := hrate.sides hresult
    rw [hp.mul_core] at hresult
    have hfits : q.amount < 2 ^ 64 := hp.other_fits.trans (by decide)
    obtain ⟨-, rfl, hsmall⟩ :=
      Asset.convert_eq_div hscaled (by omega) hp.other_pos.le hfits hresult
    have hnonneg : 0 ≤ scaled * q.amount / b.amount :=
      Int.ediv_nonneg (mul_nonneg hscaled hp.other_pos.le) hp.core_pos.le
    have hlt : scaled * q.amount / b.amount < 2 ^ 63 := hsmall.trans_lt hmax64
    obtain ⟨hn, hr, henough, hleast⟩ := hp.raise hscaled rfl hlt hraised
    have hr0 : 0 ≤ raised := by
      rw [hr]
      exact add_nonneg hnonneg (Int.natCast_nonneg _)
    refine ⟨b, q, hp, rfl, hr0, hle, hn, henough, fun x hx => ?_⟩
    change Asset.mul ⟨raised - 1, q.assetId⟩ rate = .ok x at hx
    by_cases hzero : raised = 0
    · -- there is no lower fee
      rw [hzero, zero_sub, hp.mul_other] at hx
      exact absurd hx (Asset.convert_neg_one hp.core_pos hp.core_fits hp.other_fits)
    · rw [hp.worth (by omega) (by omega) hx]
      exact hleast
  · cases h

theorem convertScaled_unit (hscaled : 0 ≤ scaled) (hmax : scaled ≤ maxShareSupply) :
    convertScaled scaled .unit = .ok (⟨scaled, core⟩, 0) := by
  have hmax64 : maxShareSupply < 2 ^ 63 := by decide
  have hmul : Asset.mul ⟨scaled, core⟩ .unit = .ok ⟨scaled, core⟩ := by
    have hunit : Asset.convert scaled ⟨1, core⟩ ⟨1, core⟩ = if scaled * 1 / 1 ≤ maxShareSupply then
        .ok ⟨scaled * 1 / 1, core⟩ else .error .assertion :=
      Asset.convert_eq_ite hscaled (by omega) zero_le_one (by decide) one_pos
    rw [mul_one, Int.ediv_one, if_pos hmax] at hunit
    exact hunit
  have hlt : (Asset.mk scaled core).lt ⟨scaled, core⟩ = .ok false := by
    unfold Asset.lt
    rw [if_pos rfl, decide_eq_false (lt_irrefl _)]
  obtain ⟨room, hroom⟩ : ∃ room, (2 ^ 63 - scaled).toNat = room + 1 :=
    Nat.exists_eq_succ_of_ne_zero (by omega)
  have hraise : raiseUntil .unit scaled core (2 ^ 63 - scaled).toNat scaled = .ok (scaled, 0) := by
    rw [hroom]
    exact except_bind_eq_ok.mpr ⟨_, hmul, except_bind_eq_ok.mpr ⟨false, hlt, rfl⟩⟩
  exact except_bind_eq_ok.mpr ⟨_, hmul, except_bind_eq_ok.mpr ⟨_, hraise, if_pos hmax⟩⟩

/-! ### The size of an operation -/

variable {S : FeeSchedule} {idSize : ℕ → ℕ} {op : PricedOperation}

theorem lowered_nonneg {which : ℕ} {x : ℤ} (h : 0 ≤ x) : 0 ≤ lowered which x := by
  unfold lowered
  split
  · split
    · omega
    · split
      · omega
      · split <;> omega
  · exact h

theorem scaledFee_ok (h : S.scaledFee idSize op = .ok scaled) : 0 ≤ scaled ∧ scaled ≤ maxShareSupply := by
  unfold scaledFee at h
  obtain ⟨baseValue, -, h⟩ := except_bind_eq_ok.mp h
  simp only at h
  split at h
  · next hle =>
    cases h
    refine ⟨lowered_nonneg ?_, hle⟩
    exact Int.ediv_nonneg (uint128_nonneg _) (by decide)
  · cases h

/-- What an operation asks for depends on its fee through the asset only. -/
theorem scaledFee_withFee {f g : Asset} (hid : f.assetId = g.assetId) :
    S.scaledFee idSize (op.withFee f) = S.scaledFee idSize (op.withFee g) := by
  have hsize : (op.withFee f).packSize idSize = (op.withFee g).packSize idSize := by
    change 8 + idSize f.assetId + op.rest = 8 + idSize g.assetId + op.rest
    rw [hid]
  have hbasis : (op.withFee f).basis = (op.withFee g).basis := rfl
  unfold scaledFee PricedOperation.calculateFee
  rw [hsize, hbasis]

theorem calculateFee_withFee {f g : Asset} (hid : f.assetId = g.assetId) :
    S.calculateFee idSize (op.withFee f) rate = S.calculateFee idSize (op.withFee g) rate := by
  unfold calculateFee
  rw [scaledFee_withFee hid]

theorem calculateFee_ok (hrate : rate.Exchanges) {r : Asset} (h : S.calculateFee idSize op rate = .ok r) :
    ∃ scaled n, S.scaledFee idSize op = .ok scaled ∧ convertScaled scaled rate = .ok (r, n) ∧
      ∃ b q, rate.Sides b q ∧ r.assetId = q.assetId ∧ 0 ≤ r.amount ∧ r.amount ≤ maxShareSupply ∧ n ≤ 1 ∧
        (∃ worth, r.mul rate = .ok ⟨worth, core⟩ ∧ scaled ≤ worth) ∧
        ∀ x, Asset.mul ⟨r.amount - 1, r.assetId⟩ rate = .ok x → x.amount < scaled := by
  unfold calculateFee at h
  obtain ⟨scaled, hscaled, h⟩ := except_bind_eq_ok.mp h
  obtain ⟨⟨r', n⟩, hconvert, h⟩ := except_bind_eq_ok.mp h
  cases h
  obtain ⟨hnonneg, hmax⟩ := scaledFee_ok hscaled
  exact ⟨scaled, n, hscaled, hconvert, convertScaled_ok hrate hnonneg hmax hconvert⟩

/-! ### `set_fee` -/

/-- The larger of two fees in one asset. -/
def larger (f f' : Asset) : Asset := if f.amount < f'.amount then f' else f

/-- **The rounds of `set_fee`**: the second fee is computed again in the second round, if it is not the
first one already. -/
theorem setFee_eq {f f' : Asset} (h : S.calculateFee idSize op rate = .ok f)
    (h' : S.calculateFee idSize (op.withFee f) rate = .ok f') (hid : f.assetId = f'.assetId) :
    S.setFee idSize op rate = .ok (op.withFee (larger f f'), larger f f') := by
  have hlarger : (larger f f').assetId = f.assetId := by
    unfold larger
    split
    · exact hid.symm
    · rfl
  have hagain : S.calculateFee idSize (op.withFee (larger f f')) rate = .ok f' := by
    rw [calculateFee_withFee hlarger, h']
  unfold setFee
  rw [h]
  change S.stabilize idSize rate (3 + 1) op f f = _
  unfold stabilize
  simp only
  rw [h']
  change (if f = f' then _ else _) = _
  by_cases heq : f = f'
  · -- the first round
    rw [if_pos heq]
    unfold larger
    rw [heq, if_neg (lt_irrefl _)]
  · rw [if_neg heq]
    have hless : f.lt f' = .ok (decide (f.amount < f'.amount)) := by
      unfold Asset.lt
      rw [if_pos hid]
    rw [hless]
    change S.stabilize idSize rate (2 + 1) (op.withFee f) f'
      (if decide (f.amount < f'.amount) = true then f' else f) = _
    have hmax : (if decide (f.amount < f'.amount) = true then f' else f) = larger f f' := by
      unfold larger
      simp only [decide_eq_true_eq]
    rw [hmax]
    -- the second round
    unfold stabilize
    simp only
    change (do
      let f₂ ← S.calculateFee idSize (op.withFee (larger f f')) rate
      if f' = f₂ then .ok (op.withFee (larger f f'), larger f f') else _) = _
    rw [hagain]
    change (if f' = f' then _ else _) = _
    rw [if_pos rfl]

/-- **The fee that is set is sufficient**: what it is worth covers what the operation asks for with it. -/
theorem larger_sufficient (hrate : rate.Exchanges) {f f' : Asset}
    (h : S.calculateFee idSize op rate = .ok f)
    (h' : S.calculateFee idSize (op.withFee f) rate = .ok f') :
    f.assetId = f'.assetId ∧ ∃ b q required worth, rate.Sides b q ∧ (larger f f').assetId = q.assetId ∧
      (larger f f').amount ≤ maxShareSupply ∧ 0 ≤ required ∧ required ≤ maxShareSupply ∧
      S.scaledFee idSize (op.withFee (larger f f')) = .ok required ∧
      (larger f f').mul rate = .ok ⟨worth, core⟩ ∧ required ≤ worth := by
  obtain ⟨_, _, _, _, b, q, hp, hf, hf0, hfmax, -, ⟨x, hx, -⟩, -⟩ := calculateFee_ok hrate h
  obtain ⟨required, _, hrequired, _, b', q', hp', hf', hf0', hfmax', -, ⟨y, hy, hyenough⟩, -⟩ :=
    calculateFee_ok hrate h'
  obtain ⟨hnonneg, hmax⟩ := scaledFee_ok hrequired
  have hq : q'.assetId = q.assetId := hp'.assetId_eq hp
  have hf'' : f'.assetId = q.assetId := hf'.trans hq
  have hid : f.assetId = f'.assetId := hf.trans hf''.symm
  refine ⟨hid, b, q, required, ?_⟩
  have hsame : S.scaledFee idSize (op.withFee (larger f f')) = .ok required := by
    have hlarger : (larger f f').assetId = f.assetId := by
      unfold larger
      split
      · exact hid.symm
      · rfl
    rw [scaledFee_withFee hlarger, hrequired]
  by_cases hless : f.amount < f'.amount
  · have hlarger : larger f f' = f' := if_pos hless
    rw [hlarger] at hsame ⊢
    exact ⟨y, hp, hf'', hfmax', hnonneg, hmax, hsame, hy, hyenough⟩
  · have hlarger : larger f f' = f := if_neg hless
    rw [hlarger] at hsame ⊢
    have hmono : y ≤ x := hp.worth_mono hf'' hf hf0' (not_lt.mp hless) hfmax hy hx
    exact ⟨x, hp, hf, hfmax, hnonneg, hmax, hsame, hx, hyenough.trans hmono⟩

/-- What a fee in another asset is worth to `prepare_fee`. -/
theorem prepareFee_converts {settings : Settings} {payer : ℕ} {fee : Asset} {paid : ℤ} {s s' : Books}
    {a : AssetObject} (h : prepareFee settings payer fee s = .ok paid s') (hne : fee.assetId ≠ core)
    (ha : s.assets.lookup fee.assetId = some a) :
    ∃ x, fee.mul a.options.coreExchangeRate = .ok x ∧ x.amount = paid := by
  unfold prepareFee at h
  rw [get_bind, assert_bind_eq_ok] at h
  obtain ⟨-, h⟩ := h
  obtain ⟨-, -, h⟩ := require_bind_eq_ok.mp h
  obtain ⟨a', ha', h⟩ := require_bind_eq_ok.mp h
  obtain ⟨d, -, h⟩ := require_bind_eq_ok.mp h
  obtain ⟨-, h⟩ := assert_bind_eq_ok.mp h
  rw [ha] at ha'
  cases ha'
  rw [if_neg hne] at h
  obtain ⟨x, hx, h⟩ := lift_bind_eq_ok.mp h
  obtain ⟨-, h⟩ := assert_bind_eq_ok.mp h
  obtain ⟨-, h⟩ := assert_bind_eq_ok.mp h
  obtain ⟨hpaid, -⟩ := pure_eq_ok.mp h
  exact ⟨x, hx, hpaid⟩

/-- **Computed fees are minimal and accepted.** What `calculate_fee` returns is worth the scaled fee in core,
a unit less is not, and it was raised once at most. `set_fee` returns the fee that the operation carries then,
and if the fee's asset has this rate, the check of the evaluator accepts it. -/
theorem computed_fees (hrate : rate.Exchanges) :
    (∀ r, S.calculateFee idSize op rate = .ok r →
      ∃ scaled corrections, S.scaledFee idSize op = .ok scaled ∧
        convertScaled scaled rate = .ok (r, corrections) ∧ corrections ≤ 1 ∧
        (∃ worth, r.mul rate = .ok ⟨worth, core⟩ ∧ scaled ≤ worth) ∧
        ∀ x, Asset.mul ⟨r.amount - 1, r.assetId⟩ rate = .ok x → x.amount < scaled) ∧
      ∀ f f', S.calculateFee idSize op rate = .ok f → S.calculateFee idSize (op.withFee f) rate = .ok f' →
        ∃ fee, S.setFee idSize op rate = .ok (op.withFee fee, fee) ∧
          ∀ (settings : Settings) (payer : ℕ) (s s' : Books) (paid : ℤ),
            (fee.assetId ≠ core → ∃ a, s.assets.lookup fee.assetId = some a ∧
              a.options.coreExchangeRate = rate) →
            prepareFee settings payer fee s = .ok paid s' →
              checkFee settings S idSize payer (op.withFee fee) s = .ok paid s' := by
  refine ⟨fun r hr => ?_, fun f f' hf hf' => ?_⟩
  · obtain ⟨scaled, n, hscaled, hconvert, _, _, -, -, -, -, hn, henough, hleast⟩ := calculateFee_ok hrate hr
    exact ⟨scaled, n, hscaled, hconvert, hn, henough, hleast⟩
  · obtain ⟨hid, b, q, required, worth, hp, hq, hlarger, hnonneg, hmax, hrequired, hworth, henough⟩ :=
      larger_sufficient hrate hf hf'
    refine ⟨larger f f', setFee_eq hf hf' hid, fun settings payer s s' paid hasset hprepare => ?_⟩
    have hunit : S.calculateFee idSize (op.withFee (larger f f')) .unit = .ok ⟨required, core⟩ :=
      except_bind_eq_ok.mpr ⟨required, hrequired,
        except_bind_eq_ok.mpr ⟨_, convertScaled_unit hnonneg hmax, rfl⟩⟩
    have hpaid : required ≤ paid := by
      by_cases hcore : (larger f f').assetId = core
      · -- a fee in core is worth itself, at one to one
        obtain ⟨-, hfee, -, hself, -⟩ := prepareFee_ok hprepare
        have heven : q.amount = b.amount := hp.even (hq.symm.trans hcore)
        have hconverted : Asset.mul ⟨(larger f f').amount, q.assetId⟩ rate = .ok ⟨worth, core⟩ := by
          rw [← hq]
          exact hworth
        have hsmall : (larger f f').amount < 2 ^ 64 := hlarger.trans_lt (by decide)
        have hvalue : worth = (larger f f').amount * b.amount / q.amount :=
          congrArg Asset.amount (hp.worth hfee hsmall hconverted)
        rw [heven, Int.mul_ediv_cancel _ hp.core_pos.ne'] at hvalue
        rw [hself hcore, ← hvalue]
        exact henough
      · obtain ⟨a, ha, hrate'⟩ := hasset hcore
        obtain ⟨x, hx, rfl⟩ := prepareFee_converts hprepare hcore ha
        rw [hrate', hworth] at hx
        cases hx
        exact henough
    unfold checkFee
    refine bind_eq_ok.mpr ⟨paid, s', hprepare, lift_bind_eq_ok.mpr ⟨_, hunit, ?_⟩⟩
    exact assert_bind_eq_ok.mpr ⟨hpaid, rfl⟩

section Example

/-- An empty schedule: every operation has its default fee. -/
private def defaultFees : FeeSchedule := { parameters := fun _ => none }

/-- A proposal whose fee is in core. -/
private def proposalInCore : PricedOperation := ⟨⟨0, core⟩, .proposalCreate, 1014⟩

/-- Ids from 128 on take a second byte. -/
private def idBytes (id : ℕ) : ℕ := if id < 128 then 1 else 2

/-- Eight units of an asset for three of core. -/
private def eightForThree : Price := ⟨⟨8, 200⟩, ⟨3, core⟩⟩

/-- With a fee in the asset the proposal takes a byte more, and costs more: `set_fee` needs a second
round, and so much is worth enough. -/
theorem computed_fees_proposal :
    ∃ fee worth, defaultFees.setFee idBytes proposalInCore eightForThree =
        .ok (proposalInCore.withFee fee, fee) ∧
      Asset.mul ⟨5333333358, 200⟩ eightForThree = .ok ⟨worth, core⟩ ∧ 2000000009 ≤ worth := by
  have hrate : eightForThree.Exchanges :=
    ⟨by decide, by decide, by decide, by decide, fun heq => absurd heq (by decide)⟩
  have hfirst : defaultFees.calculateFee idBytes proposalInCore eightForThree =
      .ok ⟨5333333358, 200⟩ := by
    decide +kernel
  have hsecond : defaultFees.calculateFee idBytes (proposalInCore.withFee ⟨5333333358, 200⟩)
      eightForThree = .ok ⟨5333333360, 200⟩ := by
    decide +kernel
  obtain ⟨hminimal, hset⟩ := computed_fees hrate
  obtain ⟨scaled, n, hscaled, -, -, ⟨worth, hworth, henough⟩, -⟩ := hminimal _ hfirst
  obtain ⟨fee, hfee, -⟩ := hset _ _ hfirst hsecond
  have hasked : defaultFees.scaledFee idBytes proposalInCore = .ok 2000000009 := by decide +kernel
  rw [hasked] at hscaled
  cases hscaled
  exact ⟨fee, worth, hfee, hworth, henough⟩

end Example

end FeeSchedule

end FinChain.Ledger
