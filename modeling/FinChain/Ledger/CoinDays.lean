import FinChain.Ledger.Vesting
import FinChain.Ledger.MarginPostings
import Mathlib.Tactic.Linarith

/-!
# Coin-days are never overdrawn

A balance under the coin-days policy is filled and emptied at nondecreasing times. `CddRun` is any such
run, with a `Tally` of what was deposited, what was withdrawn and how many coin-seconds have accrued if
they are not capped: every unit of the balance earns one in every second, and a deposit that is vested
already brings its own.

What is accrued pays for what was withdrawn and for the coin-seconds that are left. This is the potential
that carries the whole argument (`CddRun.inv`): the cap and the wrap-around of the products only ever
lower the coin-seconds, and a withdrawal uses up as many as it is worth. The bounds that are asserted by
the source follow.
-/

namespace FinChain.Ledger

/-! ### The policy -/

namespace CddVestingPolicy

variable {p : CddVestingPolicy} {ctx : VestingContext}

theorem unitCost_pos (p : CddVestingPolicy) : 0 < (p.unitCost : ℤ) := by
  unfold unitCost
  omega

theorem compute_nonneg : 0 ≤ p.computeCoinSecondsEarned ctx :=
  le_min (uint128_nonneg _) (uint128_nonneg _)

/-- **The cap.** -/
theorem compute_le_cap (hbalance : 0 ≤ ctx.balance.amount) :
    p.computeCoinSecondsEarned ctx ≤ ctx.balance.amount * p.unitCost := by
  have hcost := p.unitCost_pos.le
  calc p.computeCoinSecondsEarned ctx
      ≤ uint128 (uint128 ctx.balance.amount * p.unitCost) := min_le_right _ _
    _ ≤ uint128 ctx.balance.amount * p.unitCost :=
        uint128_le (mul_nonneg (uint128_nonneg _) hcost)
    _ ≤ ctx.balance.amount * p.unitCost := mul_le_mul_of_nonneg_right (uint128_le hbalance) hcost

/-- **What is earned has accrued.** -/
theorem compute_le_accrued (hbalance : 0 ≤ ctx.balance.amount) (hearned : 0 ≤ p.coinSecondsEarned)
    (htime : p.coinSecondsEarnedLastUpdate ≤ ctx.now) : p.computeCoinSecondsEarned ctx ≤
      p.coinSecondsEarned + ctx.balance.amount * (ctx.now - p.coinSecondsEarnedLastUpdate) := by
  have hdelta : (0 : ℤ) ≤ ctx.now - p.coinSecondsEarnedLastUpdate := by omega
  have hproduct : uint128 (uint128 ctx.balance.amount *
      uint128 (ctx.now - p.coinSecondsEarnedLastUpdate)) ≤
        ctx.balance.amount * (ctx.now - p.coinSecondsEarnedLastUpdate) :=
    (uint128_le (mul_nonneg (uint128_nonneg _) (uint128_nonneg _))).trans
      (mul_le_mul (uint128_le hbalance) (uint128_le hdelta) (uint128_nonneg _) hbalance)
  have hsum := uint128_le (add_nonneg hearned (uint128_nonneg (uint128 ctx.balance.amount *
    uint128 (ctx.now - p.coinSecondsEarnedLastUpdate))))
  exact (min_le_left _ _).trans (hsum.trans (add_le_add_right hproduct _))

/-- **What may be withdrawn** is covered by the coin-seconds, and hence by the balance. -/
theorem getAllowedWithdraw_spec (hbalance : 0 ≤ ctx.balance.amount)
    (hfits : FitsShare ctx.balance.amount) : ∃ x, p.getAllowedWithdraw ctx =
      .ok ⟨x, ctx.balance.assetId⟩ ∧ 0 ≤ x ∧ x ≤ ctx.balance.amount ∧
        x * p.unitCost ≤ p.computeCoinSecondsEarned ctx := by
  have hcost := p.unitCost_pos
  unfold getAllowedWithdraw
  split
  · refine ⟨0, rfl, le_rfl, hbalance, ?_⟩
    rw [zero_mul]
    exact compute_nonneg
  · have hnonneg : 0 ≤ p.computeCoinSecondsEarned ctx / p.unitCost :=
      Int.ediv_nonneg compute_nonneg hcost.le
    have hle : p.computeCoinSecondsEarned ctx / p.unitCost ≤ ctx.balance.amount :=
      Int.ediv_le_of_le_mul hcost (compute_le_cap hbalance)
    have hlt : p.computeCoinSecondsEarned ctx / p.unitCost < 2 ^ 63 := hle.trans_lt hfits.2
    refine ⟨p.computeCoinSecondsEarned ctx / p.unitCost, ?_, hnonneg, hle,
      Int.ediv_mul_le _ hcost.ne'⟩
    dsimp only
    unfold toUint64
    rw [if_pos (by omega)]
    change Except.ok (⟨int64 _, _⟩ : Asset) = _
    rw [int64_of_lt hnonneg hlt]

theorem isWithdrawAllowed_spec (hbalance : 0 ≤ ctx.balance.amount)
    (hfits : FitsShare ctx.balance.amount) (h : p.isWithdrawAllowed ctx = .ok true) :
    ctx.amount.assetId = ctx.balance.assetId ∧ ctx.amount.amount ≤ ctx.balance.amount ∧
      ctx.amount.amount * p.unitCost ≤ p.computeCoinSecondsEarned ctx := by
  obtain ⟨x, hallowed, hnonneg, hle, hcovered⟩ := getAllowedWithdraw_spec (p := p) hbalance hfits
  unfold isWithdrawAllowed at h
  rw [hallowed] at h
  obtain ⟨hid, hamount⟩ := Asset.le_eq_ok h
  have hx : ctx.amount.amount ≤ x := hamount.mp rfl
  exact ⟨hid, hx.trans hle, (mul_le_mul_of_nonneg_right hx p.unitCost_pos.le).trans hcovered⟩

/-- The assertion of `on_withdraw`: a withdrawal that is allowed is paid with coin-seconds that are
there. -/
theorem coinSecondsNeeded_le (hbalance : 0 ≤ ctx.balance.amount)
    (hfits : FitsShare ctx.balance.amount) (hamount : 0 ≤ ctx.amount.amount)
    (h : p.isWithdrawAllowed ctx = .ok true) :
    p.coinSecondsNeeded ctx ≤ (p.updateCoinSecondsEarned ctx).coinSecondsEarned := by
  have hcost := p.unitCost_pos.le
  calc p.coinSecondsNeeded ctx
      ≤ uint128 ctx.amount.amount * p.unitCost := uint128_le (mul_nonneg (uint128_nonneg _) hcost)
    _ ≤ ctx.amount.amount * p.unitCost := mul_le_mul_of_nonneg_right (uint128_le hamount) hcost
    _ ≤ p.computeCoinSecondsEarned ctx := (isWithdrawAllowed_spec hbalance hfits h).2.2

end CddVestingPolicy

/-! ### Runs -/

/-- What is done to a vesting balance. -/
inductive VestingEvent
  | deposit (amount : Asset)
  | depositVested (amount : Asset)
  | withdraw (amount : Asset)

def VestingEvent.amount : VestingEvent → Asset
  | deposit a | depositVested a | withdraw a => a

/-- An event with the checks its callers make. Cashback is deposited without a check. -/
def VestingObject.accept (v : VestingObject) (now : ℕ) :
    VestingEvent → Except LedgerError VestingObject
  | .deposit amount =>
    if v.isDepositAllowed now amount then v.deposit now amount else .error .assertion
  | .depositVested amount => v.depositVested now amount
  | .withdraw amount => do
    let allowed ← v.isWithdrawAllowed now amount
    if allowed then v.withdraw now amount else .error .assertion

/-- What has happened to a balance. -/
structure Tally where
  deposited : ℤ
  withdrawn : ℤ
  /-- The coin-seconds, not capped. -/
  accrued : ℤ
  /-- How often the coin-seconds were updated. -/
  updates : ℕ

/-- The tally after an event, of a balance under the given policy. -/
def Tally.add (T : Tally) (v : VestingObject) (p : CddVestingPolicy) (now : ℕ) (e : VestingEvent) :
    Tally where
  deposited := T.deposited + match e with
    | .deposit a | .depositVested a => a.amount
    | .withdraw _ => 0
  withdrawn := T.withdrawn + match e with
    | .withdraw a => a.amount
    | _ => 0
  accrued := T.accrued + v.balance.amount * (now - p.coinSecondsEarnedLastUpdate) + match e with
    | .depositVested a => a.amount * p.unitCost
    | _ => 0
  updates := T.updates + 1

/-- The runs from a balance. The amounts are numbers of the type of the source, and not negative, which
the operations check; a sum that does not fit is thrown by `share_type`. -/
inductive CddRun (v₀ : VestingObject) : VestingObject → Tally → Prop
  | start {p : CddVestingPolicy} (hp : v₀.policy = .cdd p) :
      CddRun v₀ v₀ ⟨v₀.balance.amount, 0, p.coinSecondsEarned, 0⟩
  | step {v v' : VestingObject} {T : Tally} {p : CddVestingPolicy} {now : ℕ} {e : VestingEvent}
      (hrun : CddRun v₀ v T) (hp : v.policy = .cdd p)
      (htime : p.coinSecondsEarnedLastUpdate ≤ now)
      (hamount : 0 ≤ e.amount.amount) (hshare : FitsShare e.amount.amount)
      (hvested : ∀ a, e = .depositVested a → a.amount * p.vestingSeconds < 2 ^ 63)
      (hstep : v.accept now e = .ok v') (hfits : FitsShare v'.balance.amount) :
      CddRun v₀ v' (T.add v p now e)

/-- The balance and its coin-seconds, before the first update too. -/
structure CddFine (v : VestingObject) (p : CddVestingPolicy) : Prop where
  policy : v.policy = .cdd p
  balance : 0 ≤ v.balance.amount
  fits : FitsShare v.balance.amount
  earned : 0 ≤ p.coinSecondsEarned

/-- What a step preserves: what has accrued pays for what was withdrawn and what is earned. -/
structure CddInv (v : VestingObject) (T : Tally) (p : CddVestingPolicy) : Prop extends CddFine v p where
  capped : 0 < T.updates → p.coinSecondsEarned ≤ v.balance.amount * p.unitCost
  deposited : T.withdrawn + v.balance.amount = T.deposited
  accrued : T.withdrawn * p.unitCost + p.coinSecondsEarned ≤ T.accrued

theorem VestingObject.accept_ok {v v' : VestingObject} {p : CddVestingPolicy} {now : ℕ}
    {e : VestingEvent} (hp : v.policy = .cdd p) (h : v.accept now e = .ok v') :
    (∃ a, e = .deposit a ∧ v' = ⟨⟨v.balance.amount + a.amount, v.balance.assetId⟩,
        .cdd (p.onDeposit ⟨v.balance, now, a⟩)⟩) ∨
      (∃ a, e = .depositVested a ∧ v' = ⟨⟨v.balance.amount + a.amount, v.balance.assetId⟩,
        .cdd (p.onDepositVested ⟨v.balance, now, a⟩)⟩) ∨
      ∃ a, e = .withdraw a ∧ p.isWithdrawAllowed ⟨v.balance, now, a⟩ = .ok true ∧
        v' = ⟨⟨v.balance.amount - a.amount, v.balance.assetId⟩,
          .cdd (p.onWithdraw ⟨v.balance, now, a⟩)⟩ := by
  cases e with
  | deposit a =>
    left
    simp only [accept] at h
    split at h
    · unfold deposit at h
      rw [hp] at h
      obtain ⟨b, hb, h⟩ := Exec.except_bind_eq_ok.mp h
      obtain ⟨-, rfl⟩ := Asset.add_eq_ok hb
      exact ⟨a, rfl, (Except.ok.inj h).symm⟩
    · cases h
  | depositVested a =>
    right; left
    simp only [accept, depositVested] at h
    rw [hp] at h
    obtain ⟨_, hpolicy, h⟩ := Exec.except_bind_eq_ok.mp h
    obtain rfl := Except.ok.inj hpolicy
    obtain ⟨b, hb, h⟩ := Exec.except_bind_eq_ok.mp h
    obtain ⟨-, rfl⟩ := Asset.add_eq_ok hb
    exact ⟨a, rfl, (Except.ok.inj h).symm⟩
  | withdraw a =>
    right; right
    simp only [accept, isWithdrawAllowed] at h
    rw [hp] at h
    obtain ⟨allowed, hallowed, h⟩ := Exec.except_bind_eq_ok.mp h
    cases allowed with
    | false => cases h
    | true =>
      simp only [if_true, withdraw] at h
      rw [hp] at h
      obtain ⟨b, hb, h⟩ := Exec.except_bind_eq_ok.mp h
      unfold Asset.sub at hb
      split at hb
      · obtain rfl := Except.ok.inj hb
        exact ⟨a, rfl, hallowed, (Except.ok.inj h).symm⟩
      · cases hb

/-- **One step** keeps the invariant. -/
theorem CddInv.step {v v' : VestingObject} {T : Tally} {p : CddVestingPolicy} {now : ℕ}
    {e : VestingEvent} (h : CddInv v T p) (htime : p.coinSecondsEarnedLastUpdate ≤ now)
    (hamount : 0 ≤ e.amount.amount) (hshare : FitsShare e.amount.amount)
    (hvested : ∀ a, e = .depositVested a → a.amount * p.vestingSeconds < 2 ^ 63)
    (hstep : v.accept now e = .ok v') (hfits : FitsShare v'.balance.amount) :
    ∃ p', p'.unitCost = p.unitCost ∧ p'.coinSecondsEarnedLastUpdate = now ∧
      CddInv v' (T.add v p now e) p' := by
  have hcost := p.unitCost_pos
  have hdeposited := h.deposited
  have haccrued := h.accrued
  -- the coin-seconds after the update that every event begins with
  have hnonneg : ∀ a, 0 ≤ p.computeCoinSecondsEarned ⟨v.balance, now, a⟩ := fun _ =>
    CddVestingPolicy.compute_nonneg
  have hcap : ∀ a, p.computeCoinSecondsEarned ⟨v.balance, now, a⟩ ≤ v.balance.amount * p.unitCost :=
    fun _ => CddVestingPolicy.compute_le_cap h.balance
  have hearned : ∀ a, p.computeCoinSecondsEarned ⟨v.balance, now, a⟩ ≤
      p.coinSecondsEarned + v.balance.amount * (now - p.coinSecondsEarnedLastUpdate) :=
    fun _ => CddVestingPolicy.compute_le_accrued h.balance h.earned htime
  obtain ⟨a, rfl, rfl⟩ | ⟨a, rfl, rfl⟩ | ⟨a, rfl, hallowed, rfl⟩ :=
    VestingObject.accept_ok h.policy hstep
  · have ha : 0 ≤ a.amount := hamount
    refine ⟨p.onDeposit ⟨v.balance, now, a⟩, rfl, rfl,
      ⟨rfl, add_nonneg h.balance ha, hfits, hnonneg a⟩, fun _ => ?_, ?_, ?_⟩
    · have hmore := mul_nonneg ha hcost.le
      change _ ≤ (v.balance.amount + a.amount) * (p.unitCost : ℤ)
      have hc := hcap a
      rw [add_mul]
      exact hc.trans (le_add_of_nonneg_right hmore)
    · change T.withdrawn + 0 + (v.balance.amount + a.amount) = T.deposited + a.amount
      linarith
    · have he := hearned a
      change (T.withdrawn + 0) * (p.unitCost : ℤ) + p.computeCoinSecondsEarned _ ≤
        T.accrued + v.balance.amount * (now - p.coinSecondsEarnedLastUpdate) + 0
      rw [add_zero, add_zero]
      linarith
  · have ha : 0 ≤ a.amount := hamount
    have hmore := mul_nonneg ha hcost.le
    -- the product fits 64 bits
    have hlt : a.amount * (p.unitCost : ℤ) < 2 ^ 63 := by
      have hproduct := hvested a rfl
      unfold CddVestingPolicy.unitCost
      rcases Nat.eq_zero_or_pos p.vestingSeconds with hzero | hpos
      · have hbound : a.amount < 2 ^ 63 := hshare.2
        rw [hzero]
        simpa using hbound
      · rw [max_eq_left hpos]
        exact hproduct
    have hint : int64 (a.amount * (p.unitCost : ℤ)) = a.amount * p.unitCost := int64_of_lt hmore hlt
    have hbrought : uint128 (int64 (a.amount * (p.unitCost : ℤ))) ≤ a.amount * p.unitCost := by
      rw [hint]
      exact uint128_le hmore
    have hsum := uint128_le (add_nonneg (hnonneg a)
      (uint128_nonneg (int64 (a.amount * (p.unitCost : ℤ)))))
    refine ⟨p.onDepositVested ⟨v.balance, now, a⟩, rfl, rfl,
      ⟨rfl, add_nonneg h.balance ha, hfits, uint128_nonneg _⟩, fun _ => ?_, ?_, ?_⟩
    · have hc := hcap a
      change uint128 (p.computeCoinSecondsEarned _ + uint128 (int64 (a.amount * (p.unitCost : ℤ)))) ≤
        (v.balance.amount + a.amount) * (p.unitCost : ℤ)
      rw [add_mul]
      linarith
    · change T.withdrawn + 0 + (v.balance.amount + a.amount) = T.deposited + a.amount
      linarith
    · have he := hearned a
      change (T.withdrawn + 0) * (p.unitCost : ℤ) +
          uint128 (p.computeCoinSecondsEarned _ + uint128 (int64 (a.amount * (p.unitCost : ℤ)))) ≤
        T.accrued + v.balance.amount * (now - p.coinSecondsEarnedLastUpdate) + a.amount * p.unitCost
      rw [add_zero]
      linarith
  · have ha : 0 ≤ a.amount := hamount
    have hbalance : 0 ≤ (VestingContext.mk v.balance now a).balance.amount := h.balance
    obtain ⟨-, hle, hpaid⟩ := CddVestingPolicy.isWithdrawAllowed_spec hbalance h.fits hallowed
    have hpaid' : a.amount * (p.unitCost : ℤ) ≤ p.computeCoinSecondsEarned ⟨v.balance, now, a⟩ := hpaid
    -- nothing wraps around: the price of the withdrawal is part of what is earned
    have hlt : p.computeCoinSecondsEarned ⟨v.balance, now, a⟩ < 2 ^ 128 :=
      (min_le_right _ _).trans_lt (Int.emod_lt_of_pos _ (by norm_num))
    have hamount128 : uint128 a.amount = a.amount := uint128_of_lt ha (hshare.2.trans (by norm_num))
    have hneeded : p.coinSecondsNeeded ⟨v.balance, now, a⟩ = a.amount * p.unitCost := by
      unfold CddVestingPolicy.coinSecondsNeeded
      rw [hamount128]
      exact uint128_of_lt (mul_nonneg ha hcost.le) (hpaid'.trans_lt hlt)
    have hleft : (p.onWithdraw ⟨v.balance, now, a⟩).coinSecondsEarned =
        p.computeCoinSecondsEarned ⟨v.balance, now, a⟩ - a.amount * p.unitCost := by
      change uint128 (p.computeCoinSecondsEarned _ - p.coinSecondsNeeded _) = _
      rw [hneeded]
      refine uint128_of_lt (sub_nonneg.mpr hpaid') (lt_of_le_of_lt ?_ hlt)
      exact sub_le_self _ (mul_nonneg ha hcost.le)
    refine ⟨p.onWithdraw ⟨v.balance, now, a⟩, rfl, rfl,
      ⟨rfl, sub_nonneg.mpr hle, hfits, ?_⟩, fun _ => ?_, ?_, ?_⟩
    · rw [hleft]
      exact sub_nonneg.mpr hpaid'
    · have hc := hcap a
      rw [hleft]
      change _ ≤ (v.balance.amount - a.amount) * (p.unitCost : ℤ)
      rw [sub_mul]
      linarith
    · change T.withdrawn + a.amount + (v.balance.amount - a.amount) = T.deposited + 0
      linarith
    · have he := hearned a
      rw [hleft]
      change (T.withdrawn + a.amount) * (p.unitCost : ℤ) + _ ≤
        T.accrued + v.balance.amount * (now - p.coinSecondsEarnedLastUpdate) + 0
      rw [add_mul]
      linarith

/-- **The potential** of a run. -/
theorem CddRun.inv {v₀ v : VestingObject} {T : Tally} {p₀ : CddVestingPolicy} (h₀ : CddFine v₀ p₀)
    (hrun : CddRun v₀ v T) : ∃ p, p.unitCost = p₀.unitCost ∧ CddInv v T p := by
  induction hrun with
  | start hp =>
    obtain rfl := VestingPolicy.cdd.inj (h₀.policy.symm.trans hp)
    refine ⟨p₀, rfl, h₀, fun h => absurd h (Nat.lt_irrefl 0), ?_, ?_⟩
    · exact zero_add _
    · change 0 * _ + p₀.coinSecondsEarned ≤ p₀.coinSecondsEarned
      rw [zero_mul, zero_add]
  | step _ hp htime hamount hshare hvested hstep hfits ih =>
    obtain ⟨p, hcost, hinv⟩ := ih
    obtain rfl := VestingPolicy.cdd.inj (hinv.policy.symm.trans hp)
    obtain ⟨p', hcost', -, hinv'⟩ := hinv.step htime hamount hshare hvested hstep hfits
    exact ⟨p', hcost'.trans hcost, hinv'⟩

/-! ### Safety -/

/-- The bounds on a balance that has a tally. -/
structure CddSafe (v : VestingObject) (T : Tally) (p : CddVestingPolicy) : Prop where
  policy : v.policy = .cdd p
  /-- What is stored, once it was updated. -/
  stored : 0 < T.updates → p.coinSecondsEarned ≤ v.balance.amount * p.unitCost
  /-- What an update would store. -/
  updated (now : ℕ) (a : Asset) :
    (p.updateCoinSecondsEarned ⟨v.balance, now, a⟩).coinSecondsEarned ≤ v.balance.amount * p.unitCost
  allowed (now : ℕ) : ∃ x, v.getAllowedWithdraw now = .ok ⟨x, v.balance.assetId⟩ ∧
    0 ≤ x ∧ x ≤ v.balance.amount
  /-- The assertion of `on_withdraw`. -/
  needed (now : ℕ) (a : Asset) : 0 ≤ a.amount → v.isWithdrawAllowed now a = .ok true →
    p.coinSecondsNeeded ⟨v.balance, now, a⟩ ≤
      (p.updateCoinSecondsEarned ⟨v.balance, now, a⟩).coinSecondsEarned
  withdrawn_le : T.withdrawn ≤ T.deposited
  /-- At any later time, until the next event. -/
  earned (now : ℕ) : p.coinSecondsEarnedLastUpdate ≤ now → T.withdrawn ≤
    (T.accrued + v.balance.amount * (now - p.coinSecondsEarnedLastUpdate)) / p.unitCost

/-- **The coin-days policy is safe**: whatever is deposited and withdrawn at nondecreasing times, the
coin-seconds stay capped by the balance, and what was withdrawn was deposited and earned before. -/
theorem coin_days_safe {v₀ v : VestingObject} {T : Tally} {p₀ : CddVestingPolicy}
    (h₀ : CddFine v₀ p₀) (hrun : CddRun v₀ v T) : ∃ p, p.unitCost = p₀.unitCost ∧ CddSafe v T p := by
  obtain ⟨p, hcost, h⟩ := hrun.inv h₀
  have hpos := p.unitCost_pos
  refine ⟨p, hcost, h.policy, h.capped, fun now a => CddVestingPolicy.compute_le_cap h.balance,
    fun now => ?_, fun now a ha hallowed => ?_, ?_, fun now htime => ?_⟩
  · have hbalance : 0 ≤ (VestingContext.mk v.balance now ⟨0, core⟩).balance.amount := h.balance
    obtain ⟨x, hx, hnonneg, hle, -⟩ :=
      CddVestingPolicy.getAllowedWithdraw_spec (p := p) hbalance h.fits
    unfold VestingObject.getAllowedWithdraw
    rw [h.policy]
    exact ⟨x, hx, hnonneg, hle⟩
  · unfold VestingObject.isWithdrawAllowed at hallowed
    rw [h.policy] at hallowed
    exact CddVestingPolicy.coinSecondsNeeded_le h.balance h.fits ha hallowed
  · rw [← h.deposited]
    exact le_add_of_nonneg_right h.balance
  · have hlater : (0 : ℤ) ≤ now - p.coinSecondsEarnedLastUpdate := by omega
    rw [Int.le_ediv_iff_mul_le hpos]
    have hearned := h.earned
    have haccrued := h.accrued
    have hmore := mul_nonneg h.balance hlater
    linarith

section Example

/-- A thousand under coin-days of a hundred seconds. -/
private def thousand : VestingObject where
  balance := ⟨1000, core⟩
  policy := .cdd { vestingSeconds := 100, coinSecondsEarned := 0, coinSecondsEarnedLastUpdate := 0 }

/-- What may be withdrawn of it after fifty seconds is one half. -/
private def fiveHundred : VestingObject where
  balance := ⟨500, core⟩
  policy := .cdd { vestingSeconds := 100, coinSecondsEarned := 0, coinSecondsEarnedLastUpdate := 50 }

theorem coin_days_safe_half : ∃ T p, T.withdrawn = 500 ∧ CddSafe fiveHundred T p := by
  have hstep : thousand.accept 50 (.withdraw ⟨500, core⟩) = .ok fiveHundred := by decide
  have hrun : CddRun thousand fiveHundred _ := .step (.start rfl) rfl (by decide) (by decide)
    (by decide) (fun a h => by cases h) hstep (by decide)
  obtain ⟨p, -, hsafe⟩ := coin_days_safe ⟨rfl, by decide, by decide, by decide⟩ hrun
  exact ⟨_, p, rfl, hsafe⟩

end Example

end FinChain.Ledger
