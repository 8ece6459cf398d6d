import FinChain.Ledger.CoinDays

/-!
# Linear vesting releases on schedule

A balance under the linear policy does not record what was withdrawn of it; what was is inferred from
what is left. `schedule` is what has vested at a time, and the invariant of a run of withdrawals is that
what was withdrawn is what is missing, and had vested when it was withdrawn (`LinearRun.inv`). The
schedule never goes back, so what has vested covers the withdrawals at every later time too.

The end of the duration is not enough for the whole balance to be available: a cliff that is longer than
the duration, which nothing checks, holds it back, and at the begin of the vesting nothing is available
even if it takes no time.
-/

namespace FinChain.Ledger

open Exec

namespace LinearVestingPolicy

/-- What the types of the source promise of a policy. -/
structure InRange (p : LinearVestingPolicy) : Prop where
  nonneg : 0 ≤ p.beginBalance
  fits : p.beginBalance < 2 ^ 63
  duration : p.vestingDurationSeconds < 2 ^ 32

/-- **The schedule**: what has vested at a time. -/
def schedule (p : LinearVestingPolicy) (t : ℕ) : ℤ :=
  if t < p.beginTimestamp + p.vestingCliffSeconds then 0
  else if p.vestingDurationSeconds = 0 then p.beginBalance
  else p.beginBalance * (min (t - p.beginTimestamp) p.vestingDurationSeconds : ℕ) /
    p.vestingDurationSeconds

variable {p : LinearVestingPolicy} {ctx : VestingContext} {t u : ℕ}

theorem schedule_before_cliff (h : t < p.beginTimestamp + p.vestingCliffSeconds) : p.schedule t = 0 :=
  if_pos h

/-- From the end of the duration on, once the cliff has passed, everything has vested. -/
theorem schedule_end (hcliff : p.beginTimestamp + p.vestingCliffSeconds ≤ t)
    (hend : p.beginTimestamp + p.vestingDurationSeconds ≤ t) : p.schedule t = p.beginBalance := by
  unfold schedule
  rw [if_neg (not_lt.mpr hcliff)]
  split
  · rfl
  · next hduration =>
    have hcast : (p.vestingDurationSeconds : ℤ) ≠ 0 := by exact_mod_cast hduration
    rw [min_eq_right (by omega), Int.mul_ediv_cancel _ hcast]

/-- While it vests, the quotient of the source. -/
theorem schedule_vesting (hcliff : p.beginTimestamp + p.vestingCliffSeconds ≤ t)
    (hbefore : t - p.beginTimestamp < p.vestingDurationSeconds) :
    p.schedule t = p.beginBalance * (t - p.beginTimestamp : ℕ) / p.vestingDurationSeconds := by
  unfold schedule
  rw [if_neg (not_lt.mpr hcliff), if_neg (by omega), min_eq_left hbefore.le]

theorem schedule_nonneg (h : 0 ≤ p.beginBalance) : 0 ≤ p.schedule t := by
  unfold schedule
  split
  · exact le_rfl
  · split
    · exact h
    · exact Int.ediv_nonneg (mul_nonneg h (Int.natCast_nonneg _)) (Int.natCast_nonneg _)

theorem schedule_le (h : 0 ≤ p.beginBalance) : p.schedule t ≤ p.beginBalance := by
  unfold schedule
  split
  · exact h
  · split
    · exact le_rfl
    · next hduration =>
      have hpos : (0 : ℤ) < p.vestingDurationSeconds := by
        exact_mod_cast Nat.pos_of_ne_zero hduration
      have hmin : ((min (t - p.beginTimestamp) p.vestingDurationSeconds : ℕ) : ℤ) ≤
          p.vestingDurationSeconds := by
        exact_mod_cast min_le_right _ _
      exact Int.ediv_le_of_le_mul hpos (mul_le_mul_of_nonneg_left hmin h)

/-- **The schedule never goes back.** -/
theorem schedule_mono (h : 0 ≤ p.beginBalance) (htu : t ≤ u) : p.schedule t ≤ p.schedule u := by
  by_cases hcliff : t < p.beginTimestamp + p.vestingCliffSeconds
  · rw [schedule_before_cliff hcliff]
    exact schedule_nonneg h
  · have hcliff' : ¬ u < p.beginTimestamp + p.vestingCliffSeconds := fun hu =>
      hcliff (htu.trans_lt hu)
    unfold schedule
    rw [if_neg hcliff, if_neg hcliff']
    split
    · exact le_rfl
    · next hduration =>
      have hpos : (0 : ℤ) < p.vestingDurationSeconds := by
        exact_mod_cast Nat.pos_of_ne_zero hduration
      have hmin : ((min (t - p.beginTimestamp) p.vestingDurationSeconds : ℕ) : ℤ) ≤
          (min (u - p.beginTimestamp) p.vestingDurationSeconds : ℕ) := by
        exact_mod_cast min_le_min_right _ (Nat.sub_le_sub_right htu _)
      exact Int.ediv_le_ediv hpos (mul_le_mul_of_nonneg_left hmin h)

/-- **What may be withdrawn** after the begin of the vesting: what has vested, less what is missing. No
product wraps around, and the quotient is a share amount. -/
theorem getAllowedWithdraw_eq (hp : p.InRange) (hbegin : p.beginTimestamp < ctx.now)
    (hcliff : p.beginTimestamp + p.vestingCliffSeconds ≤ ctx.now) : p.getAllowedWithdraw ctx =
      .ok ⟨p.schedule ctx.now - (p.beginBalance - ctx.balance.amount), ctx.balance.assetId⟩ := by
  have hpassed : p.vestingCliffSeconds ≤ ctx.now - p.beginTimestamp := by omega
  unfold getAllowedWithdraw
  rw [if_pos hbegin]
  simp only
  rw [if_pos hpassed]
  by_cases hbefore : ctx.now - p.beginTimestamp < p.vestingDurationSeconds
  · have hquotient := schedule_vesting hcliff hbefore
    have hnonneg := hp.nonneg
    have helapsed : ((ctx.now - p.beginTimestamp : ℕ) : ℤ) < 2 ^ 64 := by
      have hduration := hp.duration
      have hlt : ctx.now - p.beginTimestamp < 2 ^ 64 := by omega
      exact_mod_cast hlt
    have hproduct : uint128 (uint128 p.beginBalance * (ctx.now - p.beginTimestamp : ℕ)) =
        p.beginBalance * (ctx.now - p.beginTimestamp : ℕ) :=
      uint128_mul hnonneg (hp.fits.trans (by decide)) (Int.natCast_nonneg _) helapsed
    have hvested : p.schedule ctx.now < 2 ^ 63 := (schedule_le hnonneg).trans_lt hp.fits
    have hword : toUint64 (p.schedule ctx.now) = .ok (p.schedule ctx.now) := by
      unfold toUint64
      rw [if_pos (by omega)]
    rw [if_pos hbefore, hproduct, ← hquotient, hword]
    change Except.ok (Asset.mk (int64 (p.schedule ctx.now) - _) _) = _
    rw [int64_of_lt (schedule_nonneg hnonneg) hvested]
  · rw [if_neg hbefore, schedule_end hcliff (by omega)]
    rfl

/-- Before that, nothing may be withdrawn. -/
theorem getAllowedWithdraw_early
    (h : ctx.now ≤ p.beginTimestamp ∨ ctx.now < p.beginTimestamp + p.vestingCliffSeconds) :
    p.getAllowedWithdraw ctx = .ok ⟨0, ctx.balance.assetId⟩ := by
  unfold getAllowedWithdraw
  by_cases hbegin : p.beginTimestamp < ctx.now
  · rw [if_pos hbegin]
    simp only
    rw [if_neg (by omega)]
  · rw [if_neg hbegin]

end LinearVestingPolicy

/-! ### Runs of withdrawals -/

/-- The runs of withdrawals from a balance under a linear policy, with what was withdrawn and the time
of the last withdrawal. Each is allowed by the policy, at a time that is not before the last one. -/
inductive LinearRun (p : LinearVestingPolicy) (assetId : ℕ) : ℤ → ℕ → VestingObject → Prop
  | created (t : ℕ) : LinearRun p assetId 0 t ⟨⟨p.beginBalance, assetId⟩, .linear p⟩
  | withdraw {withdrawn : ℤ} {t now : ℕ} {v v' : VestingObject} {amount : Asset}
      (hrun : LinearRun p assetId withdrawn t v) (htime : t ≤ now) (hamount : 0 ≤ amount.amount)
      (hallowed : v.isWithdrawAllowed now amount = .ok true) (h : v.withdraw now amount = .ok v') :
      LinearRun p assetId (withdrawn + amount.amount) now v'

/-- What a withdrawal preserves: what was withdrawn is what is missing, and had vested. -/
structure LinearInv (p : LinearVestingPolicy) (assetId : ℕ) (withdrawn : ℤ) (t : ℕ)
    (v : VestingObject) : Prop where
  object : v = ⟨⟨p.beginBalance - withdrawn, assetId⟩, .linear p⟩
  nonneg : 0 ≤ withdrawn
  vested : withdrawn ≤ p.schedule t

variable {p : LinearVestingPolicy} {assetId t now : ℕ} {withdrawn : ℤ} {v v' : VestingObject}

/-- What may be withdrawn of a balance that was withdrawn from on schedule. -/
theorem LinearInv.getAllowedWithdraw (h : LinearInv p assetId withdrawn t v) (hp : p.InRange)
    (hbegin : p.beginTimestamp < now) (hcliff : p.beginTimestamp + p.vestingCliffSeconds ≤ now) :
    v.getAllowedWithdraw now = .ok ⟨p.schedule now - withdrawn, assetId⟩ := by
  have hallowed : p.getAllowedWithdraw ⟨⟨p.beginBalance - withdrawn, assetId⟩, now, ⟨0, core⟩⟩ =
      .ok ⟨p.schedule now - (p.beginBalance - (p.beginBalance - withdrawn)), assetId⟩ :=
    LinearVestingPolicy.getAllowedWithdraw_eq hp hbegin hcliff
  rw [sub_sub_cancel] at hallowed
  rw [h.object]
  exact hallowed

/-- Before the begin of the vesting and before the cliff, nothing. -/
theorem LinearInv.getAllowedWithdraw_early (h : LinearInv p assetId withdrawn t v)
    (hearly : now ≤ p.beginTimestamp ∨ now < p.beginTimestamp + p.vestingCliffSeconds) :
    v.getAllowedWithdraw now = .ok ⟨0, assetId⟩ := by
  have hallowed : p.getAllowedWithdraw ⟨⟨p.beginBalance - withdrawn, assetId⟩, now, ⟨0, core⟩⟩ =
      .ok ⟨0, assetId⟩ :=
    LinearVestingPolicy.getAllowedWithdraw_early hearly
  rw [h.object]
  exact hallowed

/-- What is allowed is never negative, and what has vested covers it. -/
theorem LinearInv.allowed (h : LinearInv p assetId withdrawn t v) (hp : p.InRange) (htime : t ≤ now) :
    ∃ x, v.getAllowedWithdraw now = .ok ⟨x, assetId⟩ ∧ 0 ≤ x ∧ withdrawn + x ≤ p.schedule now := by
  have hvested : withdrawn ≤ p.schedule now := h.vested.trans (p.schedule_mono hp.nonneg htime)
  by_cases hready : p.beginTimestamp < now ∧ p.beginTimestamp + p.vestingCliffSeconds ≤ now
  · refine ⟨_, h.getAllowedWithdraw hp hready.1 hready.2, sub_nonneg.mpr hvested, ?_⟩
    rw [add_sub_cancel]
  · have hearly : now ≤ p.beginTimestamp ∨ now < p.beginTimestamp + p.vestingCliffSeconds := by omega
    refine ⟨0, h.getAllowedWithdraw_early hearly, le_rfl, ?_⟩
    rw [add_zero]
    exact hvested

/-- An amount is allowed if it is in the asset of the balance and not above what may be withdrawn. -/
theorem LinearInv.isWithdrawAllowed_iff {x : ℤ} {amount : Asset} (h : LinearInv p assetId withdrawn t v)
    (hx : v.getAllowedWithdraw now = .ok ⟨x, assetId⟩) :
    v.isWithdrawAllowed now amount = .ok true ↔ amount.assetId = assetId ∧ amount.amount ≤ x := by
  rw [h.object] at hx ⊢
  -- the amount is no part of the context that counts
  have hx' : p.getAllowedWithdraw ⟨⟨p.beginBalance - withdrawn, assetId⟩, now, amount⟩ =
      .ok ⟨x, assetId⟩ := hx
  change p.isWithdrawAllowed ⟨⟨p.beginBalance - withdrawn, assetId⟩, now, amount⟩ = _ ↔ _
  unfold LinearVestingPolicy.isWithdrawAllowed
  rw [hx']
  by_cases hid : amount.assetId = assetId
  · rw [if_pos hid, and_iff_right hid]
    change amount.le ⟨x, assetId⟩ = .ok true ↔ _
    have hsame : amount.assetId = (Asset.mk x assetId).assetId := hid
    rw [Asset.le_of_same hsame, Except.ok.injEq, decide_eq_true_iff]
  · rw [if_neg hid]
    refine iff_of_false ?_ fun h => hid h.1
    intro h
    cases h

/-- **One withdrawal** keeps the invariant. -/
theorem LinearInv.withdraw {amount : Asset} (h : LinearInv p assetId withdrawn t v) (hp : p.InRange)
    (htime : t ≤ now) (hamount : 0 ≤ amount.amount)
    (hallowed : v.isWithdrawAllowed now amount = .ok true) (hv' : v.withdraw now amount = .ok v') :
    LinearInv p assetId (withdrawn + amount.amount) now v' := by
  obtain ⟨x, hx, -, hcovered⟩ := h.allowed hp htime
  obtain ⟨-, hle⟩ := (h.isWithdrawAllowed_iff hx).mp hallowed
  have hobject : v' = ⟨⟨p.beginBalance - (withdrawn + amount.amount), assetId⟩, .linear p⟩ := by
    rw [h.object] at hv'
    obtain ⟨b, hb, hv'⟩ := except_bind_eq_ok.mp hv'
    unfold Asset.sub at hb
    split at hb
    · obtain rfl := Except.ok.inj hb
      rw [← sub_sub]
      exact (Except.ok.inj hv').symm
    · cases hb
  exact ⟨hobject, add_nonneg h.nonneg hamount, (add_le_add_right hle _).trans hcovered⟩

/-- **A run** keeps the invariant. -/
theorem LinearRun.inv (hp : p.InRange) (hrun : LinearRun p assetId withdrawn t v) :
    LinearInv p assetId withdrawn t v := by
  induction hrun with
  | created t =>
    refine ⟨?_, le_rfl, p.schedule_nonneg hp.nonneg⟩
    rw [sub_zero]
  | withdraw _ htime hamount hallowed hv' ih => exact ih.withdraw hp htime hamount hallowed hv'

/-- **Linear vesting releases exactly on schedule.** After any run of withdrawals, what may be withdrawn
at any later time is not negative; nothing was withdrawn before the cliff, and never more than had
vested; and once the duration and the cliff are over, later than the begin, the whole balance may be
withdrawn. -/
theorem linear_vesting_on_schedule (hp : p.InRange) (hrun : LinearRun p assetId withdrawn t v)
    (htime : t ≤ now) :
    (∃ x, v.getAllowedWithdraw now = .ok ⟨x, assetId⟩ ∧ 0 ≤ x) ∧
      0 ≤ withdrawn ∧
      (now < p.beginTimestamp + p.vestingCliffSeconds → withdrawn = 0) ∧
      (p.vestingDurationSeconds = 0 → withdrawn ≤ p.beginBalance) ∧
      (0 < p.vestingDurationSeconds → withdrawn ≤
        p.beginBalance * (min (now - p.beginTimestamp) p.vestingDurationSeconds : ℕ) /
          p.vestingDurationSeconds) ∧
      (p.beginTimestamp < now → p.beginTimestamp + p.vestingDurationSeconds ≤ now →
        p.beginTimestamp + p.vestingCliffSeconds ≤ now →
        v.balance = ⟨p.beginBalance - withdrawn, assetId⟩ ∧
          v.getAllowedWithdraw now = .ok v.balance ∧ v.isWithdrawAllowed now v.balance = .ok true) := by
  have hinv := hrun.inv hp
  have hvested : withdrawn ≤ p.schedule now := hinv.vested.trans (p.schedule_mono hp.nonneg htime)
  obtain ⟨x, hx, hnonneg, -⟩ := hinv.allowed hp htime
  refine ⟨⟨x, hx, hnonneg⟩, hinv.nonneg, fun hcliff => ?_, fun _ => ?_, fun hduration => ?_,
    fun hbegin hend hcliff => ?_⟩
  · rw [p.schedule_before_cliff hcliff] at hvested
    exact le_antisymm hvested hinv.nonneg
  · exact hvested.trans (p.schedule_le hp.nonneg)
  · refine hvested.trans ?_
    unfold LinearVestingPolicy.schedule
    split
    · exact Int.ediv_nonneg (mul_nonneg hp.nonneg (Int.natCast_nonneg _)) (Int.natCast_nonneg _)
    · rw [if_neg hduration.ne']
  · have hall := hinv.getAllowedWithdraw hp hbegin hcliff
    rw [p.schedule_end hcliff hend] at hall
    have hbalance : v.balance = ⟨p.beginBalance - withdrawn, assetId⟩ := by rw [hinv.object]
    refine ⟨hbalance, ?_, ?_⟩
    · rw [hall, hbalance]
    · rw [hinv.isWithdrawAllowed_iff hall, hbalance]
      exact ⟨rfl, le_rfl⟩

section Example

/-- A thousand that vest in a hundred seconds, with a cliff of ten. -/
private def thousandVesting : LinearVestingPolicy := ⟨1000, 10, 100, 1000⟩

private theorem inRange_thousandVesting : thousandVesting.InRange := ⟨by decide, by decide, by decide⟩

/-- 250 are withdrawn after thirty seconds, and the other 750 at the end. -/
theorem linear_vesting_on_schedule_thousand : ∃ v,
    LinearRun thousandVesting core 250 1030 v ∧ v.getAllowedWithdraw 1100 = .ok ⟨750, core⟩ := by
  have hallowed : VestingObject.isWithdrawAllowed ⟨⟨1000, core⟩, .linear thousandVesting⟩ 1030
      ⟨250, core⟩ = .ok true := by
    decide
  have hrun : LinearRun thousandVesting core (0 + 250) 1030 ⟨⟨750, core⟩, .linear thousandVesting⟩ :=
    .withdraw (.created 1000) (by decide) (by decide) hallowed rfl
  have htime : 1030 ≤ 1100 := by decide
  obtain ⟨-, -, -, -, -, hend⟩ := linear_vesting_on_schedule inRange_thousandVesting hrun htime
  exact ⟨_, hrun, (hend (by decide) (by decide) (by decide)).2.1⟩

/-- With a cliff that is longer than the duration, nothing is available after the duration. -/
theorem not_available_after_duration :
    ¬ ∀ (p : LinearVestingPolicy) (assetId : ℕ) (withdrawn : ℤ) (t now : ℕ) (v : VestingObject),
      p.InRange → LinearRun p assetId withdrawn t v → t ≤ now →
      p.beginTimestamp + p.vestingDurationSeconds ≤ now → v.getAllowedWithdraw now = .ok v.balance := by
  intro hall
  have h := hall ⟨1000, 50, 10, 1000⟩ core 0 1000 1020 _ ⟨by decide, by decide, by decide⟩
    (.created 1000) (by decide) (by decide)
  exact absurd h (by decide)

end Example

end FinChain.Ledger
