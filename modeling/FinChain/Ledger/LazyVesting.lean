import FinChain.Ledger.CoinDays

/-!
# Cashback that is vested already

`deposit_lazy_vesting` puts an amount into a vesting balance of an owner, or creates one if the given
balance belongs to somebody else or vests in another way. With `require_vesting = false` the amount
should be available at once, so it comes with the coin-seconds that it takes to withdraw it.

The two paths count them in two ways. Into an existing balance, each unit brings
`std::max(vesting_seconds, 1u)` of them; with a new balance it brings `vesting_seconds`, which is nothing
if the period is zero. In both, the product is one of 64-bit numbers. If it is too large for one, the
amount is available only by luck: a product that wraps around to a negative number is a huge one as a
128-bit number, and then the cap decides.
-/

namespace FinChain.Ledger

open Exec

/-! ### The deposit -/

/-- `vesting_balance_object`. -/
structure OwnedVesting where
  owner : ℕ
  object : VestingObject
  deriving DecidableEq

/-- The balance is the owner's, under the coin-days policy with the given period. -/
def OwnedVesting.accepts (v : OwnedVesting) (reqVestingSeconds reqOwner : ℕ) : Bool :=
  match v.object.policy with
  | .linear _ => false
  | .cdd p => decide (v.owner = reqOwner ∧ p.vestingSeconds = reqVestingSeconds)

/-- The policy of a balance that `deposit_lazy_vesting` creates. -/
def CddVestingPolicy.lazy (now : ℕ) (amount : ℤ) (reqVestingSeconds : ℕ) (requireVesting : Bool) :
    CddVestingPolicy where
  vestingSeconds := reqVestingSeconds
  coinSecondsEarned := if requireVesting then 0 else uint128 (int64 (amount * reqVestingSeconds))
  coinSecondsEarnedLastUpdate := now

/-- The vesting balances. -/
abbrev Vestings := Index OwnedVesting

namespace Vestings

/-- The balance that is deposited in, if it is not a new one. -/
def target (x : Vestings) (reqVestingSeconds reqOwner : ℕ) :
    Option ℕ → Except LedgerError (Option (ℕ × OwnedVesting))
  | none => .ok none
  | some id =>
    match x.lookup id with
    | none => .error .notFound
    | some v => .ok (if v.accepts reqVestingSeconds reqOwner then some (id, v) else none)

/-- `deposit_lazy_vesting`; the key of a balance that was created. -/
def depositLazyVesting (x : Vestings) (now : ℕ) (ovbid : Option ℕ) (amount : ℤ)
    (reqVestingSeconds reqOwner : ℕ) (requireVesting : Bool) :
    Except LedgerError (Vestings × Option ℕ) :=
  if amount = 0 then .ok (x, none)
  else do
    let found ← x.target reqVestingSeconds reqOwner ovbid
    match found with
    | some (id, v) => do
      let object ←
        if requireVesting then v.object.deposit now ⟨amount, core⟩
        else v.object.depositVested now ⟨amount, core⟩
      .ok (x.modify id fun v => { v with object := object }, none)
    | none =>
      .ok (x.create ⟨reqOwner, ⟨amount, core⟩, .cdd (.lazy now amount reqVestingSeconds requireVesting)⟩,
        some x.next)

/-- What may be withdrawn of a balance, which is nothing if there is no such balance. -/
def allowedWithdraw (x : Vestings) (now id : ℕ) : Except LedgerError Asset :=
  match x.lookup id with
  | none => .ok ⟨0, core⟩
  | some v => v.object.getAllowedWithdraw now

end Vestings

/-! ### Coin-seconds that come with an amount -/

/-- When `amount` units of `cost` coin-seconds each are available at once, on top of a balance that has
earned `earned` coin-seconds: their product is a 64-bit number, or it is negative as one, so large that
the sum wraps around, and then the balance was fully vested before. -/
def Credited (earned balance cost amount : ℤ) : Prop :=
  amount * cost < 2 ^ 63 ∨ earned = balance * cost ∧ earned + int64 (amount * cost) < 0

/-- **What is available** of a balance with an amount that came with its coin-seconds. -/
theorem available_iff {earned balance cost amount : ℤ} (hearned : 0 ≤ earned)
    (hcap : earned ≤ balance * cost) (hbalance : 0 ≤ balance) (hamount : 0 ≤ amount)
    (hfits : balance + amount < 2 ^ 63) (hcost : 0 < cost) (hcost' : cost < 2 ^ 32) :
    min (uint128 (earned + uint128 (int64 (amount * cost)))) ((balance + amount) * cost) / cost =
        earned / cost + amount ↔ Credited earned balance cost amount := by
  have hcapSmall : (balance + amount) * cost < 2 ^ 96 := by
    calc (balance + amount) * cost ≤ (balance + amount) * 2 ^ 32 :=
          mul_le_mul_of_nonneg_left hcost'.le (add_nonneg hbalance hamount)
      _ < 2 ^ 63 * 2 ^ 32 := mul_lt_mul_of_pos_right hfits (by decide)
      _ < 2 ^ 96 := by decide
  have hsum : (balance + amount) * cost = balance * cost + amount * cost := add_mul _ _ _
  have hproduct : 0 ≤ amount * cost := mul_nonneg hamount hcost.le
  have hwrap : uint128 (earned + uint128 (int64 (amount * cost))) =
      uint128 (earned + int64 (amount * cost)) := by
    unfold uint128
    rw [Int.add_emod_emod]
  rw [hwrap]
  unfold Credited
  by_cases hsmall : amount * cost < 2 ^ 63
  · -- the product is what it should be
    rw [int64_of_lt hproduct hsmall, uint128_of_lt (add_nonneg hearned hproduct) (by omega),
      min_eq_left (by omega), Int.add_mul_ediv_right _ _ hcost.ne']
    exact iff_of_true rfl (.inl hsmall)
  · have hlarge : 2 ^ 63 ≤ amount * cost := not_lt.mp hsmall
    have hless := int64_of_large hlarge
    rw [or_iff_right hsmall]
    by_cases hneg : earned + int64 (amount * cost) < 0
    · -- it wraps around to a huge number, and the cap decides
      have hbound := le_int64 (amount * cost)
      have hhuge : uint128 (earned + int64 (amount * cost)) = earned + int64 (amount * cost) + 2 ^ 128 := by
        unfold uint128
        omega
      rw [hhuge, min_eq_right (by omega), Int.mul_ediv_cancel _ hcost.ne', and_iff_left hneg]
      constructor
      · intro heq
        have hall : balance * cost ≤ earned := (Int.le_ediv_iff_mul_le hcost).mp (by omega)
        exact le_antisymm hcap hall
      · intro heq
        rw [heq, Int.mul_ediv_cancel _ hcost.ne']
    · -- it is too small
      refine iff_of_false ?_ fun h => hneg h.2
      have hlow : earned + int64 (amount * cost) ≤ earned + (amount - 1) * cost := by
        rw [sub_mul, one_mul]
        omega
      have hle : uint128 (earned + int64 (amount * cost)) ≤ earned + (amount - 1) * cost :=
        (uint128_le (not_lt.mp hneg)).trans hlow
      have hquotient : min (uint128 (earned + int64 (amount * cost))) ((balance + amount) * cost) / cost ≤
          earned / cost + (amount - 1) := by
        rw [← Int.add_mul_ediv_right _ _ hcost.ne']
        exact Int.ediv_le_ediv hcost ((min_le_left _ _).trans hle)
      omega

/-- **The coin-seconds right after an update** are those that are stored, up to the cap. -/
theorem CddVestingPolicy.compute_same_time {p : CddVestingPolicy} {ctx : VestingContext}
    (hnow : p.coinSecondsEarnedLastUpdate = ctx.now) (hearned : 0 ≤ p.coinSecondsEarned)
    (hearned' : p.coinSecondsEarned < 2 ^ 128) (hbalance : 0 ≤ ctx.balance.amount)
    (hfits : ctx.balance.amount < 2 ^ 63) (hcost : p.unitCost < 2 ^ 32) :
    p.computeCoinSecondsEarned ctx = min p.coinSecondsEarned (ctx.balance.amount * p.unitCost) := by
  have hcost' : (p.unitCost : ℤ) < 2 ^ 64 := by
    have hcast : (p.unitCost : ℤ) < 2 ^ 32 := by exact_mod_cast hcost
    exact hcast.trans (by decide)
  unfold computeCoinSecondsEarned
  simp only
  rw [hnow, sub_self, show uint128 0 = 0 from rfl, mul_zero, show uint128 0 = 0 from rfl, add_zero,
    uint128_of_lt hearned hearned',
    uint128_mul hbalance (hfits.trans (by decide)) p.unitCost_pos.le hcost']

/-- **What may be withdrawn** once claims have started. -/
theorem CddVestingPolicy.getAllowedWithdraw_started {p : CddVestingPolicy} {ctx : VestingContext}
    (hstarted : p.startClaim < ctx.now) (hbalance : 0 ≤ ctx.balance.amount)
    (hfits : ctx.balance.amount < 2 ^ 63) :
    p.getAllowedWithdraw ctx =
      .ok ⟨p.computeCoinSecondsEarned ctx / p.unitCost, ctx.balance.assetId⟩ := by
  have hcost := p.unitCost_pos
  have hnonneg : 0 ≤ p.computeCoinSecondsEarned ctx / p.unitCost :=
    Int.ediv_nonneg compute_nonneg hcost.le
  have hle : p.computeCoinSecondsEarned ctx / p.unitCost ≤ ctx.balance.amount :=
    Int.ediv_le_of_le_mul hcost (compute_le_cap hbalance)
  unfold getAllowedWithdraw
  rw [if_neg (not_le.mpr hstarted)]
  dsimp only
  unfold toUint64
  rw [if_pos (by omega)]
  change Except.ok (⟨int64 _, _⟩ : Asset) = _
  rw [int64_of_lt hnonneg (by omega)]

/-- What may be withdrawn right after an update. -/
theorem VestingObject.getAllowedWithdraw_stored {balance : ℤ} {assetId now : ℕ} {p : CddVestingPolicy}
    (hnow : p.coinSecondsEarnedLastUpdate = now) (hearned : 0 ≤ p.coinSecondsEarned)
    (hearned' : p.coinSecondsEarned < 2 ^ 128) (hbalance : 0 ≤ balance) (hfits : balance < 2 ^ 63)
    (hcost : p.unitCost < 2 ^ 32) (hstarted : p.startClaim < now) :
    (VestingObject.mk ⟨balance, assetId⟩ (.cdd p)).getAllowedWithdraw now =
      .ok ⟨min p.coinSecondsEarned (balance * p.unitCost) / p.unitCost, assetId⟩ := by
  have hsame : p.computeCoinSecondsEarned ⟨⟨balance, assetId⟩, now, ⟨0, core⟩⟩ =
      min p.coinSecondsEarned (balance * p.unitCost) :=
    CddVestingPolicy.compute_same_time hnow hearned hearned' hbalance hfits hcost
  have hallowed : p.getAllowedWithdraw ⟨⟨balance, assetId⟩, now, ⟨0, core⟩⟩ =
      .ok ⟨p.computeCoinSecondsEarned ⟨⟨balance, assetId⟩, now, ⟨0, core⟩⟩ / p.unitCost, assetId⟩ :=
    CddVestingPolicy.getAllowedWithdraw_started hstarted hbalance hfits
  rw [hsame] at hallowed
  exact hallowed

/-! ### Both paths -/

/-- What is promised of a balance of cashback: it is in core, it is not in debt, the amount does not
overflow it, and claims have started. -/
structure OwnedVesting.Fine (v : OwnedVesting) (now : ℕ) (amount : ℤ) : Prop where
  inCore : v.object.balance.assetId = core
  nonneg : 0 ≤ v.object.balance.amount
  fits : v.object.balance.amount + amount < 2 ^ 63
  started : ∀ p, v.object.policy = .cdd p → p.startClaim < now

/-- The coin-seconds that come with an amount pay for it, in a balance that exists. -/
def OwnedVesting.Credits (v : OwnedVesting) (now : ℕ) (amount : ℤ) : Prop :=
  ∃ p, v.object.policy = .cdd p ∧
    Credited (p.computeCoinSecondsEarned ⟨v.object.balance, now, ⟨amount, core⟩⟩)
      v.object.balance.amount p.unitCost amount

namespace Vestings

/-- What may be withdrawn of a balance grows by exactly the amount. -/
def AvailableAtOnce (x x' : Vestings) (now id : ℕ) (amount : ℤ) : Prop :=
  ∃ before, x.allowedWithdraw now id = .ok before ∧
    x'.allowedWithdraw now id = .ok ⟨before.amount + amount, before.assetId⟩

/-- The coin-seconds that come with an amount pay for it, in the balance that is found or in a new
one. -/
def Credits (now : ℕ) (amount : ℤ) (reqVestingSeconds : ℕ) : Option (ℕ × OwnedVesting) → Prop
  | some (_, v) => v.Credits now amount
  | none => 0 < reqVestingSeconds ∧ Credited 0 0 reqVestingSeconds amount

variable {x : Vestings} {now : ℕ} {amount : ℤ} {reqVestingSeconds reqOwner : ℕ}

/-- A balance that is found is accepted. -/
theorem target_ok {ovbid : Option ℕ} {id : ℕ} {v : OwnedVesting}
    (h : x.target reqVestingSeconds reqOwner ovbid = .ok (some (id, v))) :
    x.lookup id = some v ∧ ∃ p, v.object.policy = .cdd p ∧ p.vestingSeconds = reqVestingSeconds := by
  unfold target at h
  cases ovbid with
  | none => cases h
  | some id' =>
    simp only at h
    cases hv : x.lookup id' with
    | none =>
      rw [hv] at h
      cases h
    | some v' =>
      rw [hv] at h
      simp only at h
      split at h
      · next haccepts =>
        cases h
        refine ⟨hv, ?_⟩
        unfold OwnedVesting.accepts at haccepts
        cases hpolicy : v.object.policy with
        | linear p =>
          rw [hpolicy] at haccepts
          cases haccepts
        | cdd p =>
          rw [hpolicy] at haccepts
          exact ⟨p, rfl, (of_decide_eq_true haccepts).2⟩
      · cases h

theorem allowedWithdraw_of_lookup {id : ℕ} {v : OwnedVesting} (h : x.lookup id = some v) :
    x.allowedWithdraw now id = v.object.getAllowedWithdraw now := by
  unfold allowedWithdraw
  rw [h]

/-- **Depositing into a balance that exists.** -/
theorem available_of_existing {id : ℕ} {v : OwnedVesting} {p : CddVestingPolicy}
    (hv : x.lookup id = some v) (hp : v.object.policy = .cdd p) (hseconds : p.vestingSeconds < 2 ^ 32)
    (hfine : v.Fine now amount) (hamount : 0 ≤ amount) :
    ∃ object, v.object.depositVested now ⟨amount, core⟩ = .ok object ∧
      (x.AvailableAtOnce (x.modify id fun v => { v with object := object }) now id amount ↔
        v.Credits now amount) := by
  obtain ⟨owner, ⟨⟨balance, assetId⟩, policy⟩⟩ := v
  obtain rfl : policy = .cdd p := hp
  obtain rfl : assetId = core := hfine.inCore
  have hbalance : 0 ≤ balance := hfine.nonneg
  have hfits : balance + amount < 2 ^ 63 := hfine.fits
  have hstarted : p.startClaim < now := hfine.started p rfl
  have hcost : p.unitCost < 2 ^ 32 := by
    unfold CddVestingPolicy.unitCost
    omega
  refine ⟨⟨⟨balance + amount, core⟩, .cdd (p.onDepositVested ⟨⟨balance, core⟩, now, ⟨amount, core⟩⟩)⟩,
    rfl, ?_⟩
  -- before
  have hbefore : x.allowedWithdraw now id = .ok
      ⟨p.computeCoinSecondsEarned ⟨⟨balance, core⟩, now, ⟨0, core⟩⟩ / p.unitCost, core⟩ := by
    rw [allowedWithdraw_of_lookup hv]
    have hsmall : balance < 2 ^ 63 := by omega
    exact CddVestingPolicy.getAllowedWithdraw_started hstarted hbalance hsmall
  -- afterwards
  have hafter : allowedWithdraw (x.modify id fun v => { v with object :=
        ⟨⟨balance + amount, core⟩, .cdd (p.onDepositVested ⟨⟨balance, core⟩, now, ⟨amount, core⟩⟩)⟩ })
      now id = .ok ⟨min (p.onDepositVested ⟨⟨balance, core⟩, now, ⟨amount, core⟩⟩).coinSecondsEarned
        ((balance + amount) * p.unitCost) / p.unitCost, core⟩ := by
    have hlookup : (x.modify id fun v => { v with object :=
        ⟨⟨balance + amount, core⟩, .cdd (p.onDepositVested ⟨⟨balance, core⟩, now, ⟨amount, core⟩⟩)⟩ }).lookup
        id = some ⟨owner, ⟨⟨balance + amount, core⟩,
          .cdd (p.onDepositVested ⟨⟨balance, core⟩, now, ⟨amount, core⟩⟩)⟩⟩ := by
      rw [Index.lookup_modify, if_pos rfl, hv]
      rfl
    rw [allowedWithdraw_of_lookup hlookup]
    have hnow : (p.onDepositVested ⟨⟨balance, core⟩, now, ⟨amount, core⟩⟩).coinSecondsEarnedLastUpdate =
        now := rfl
    exact VestingObject.getAllowedWithdraw_stored hnow (uint128_nonneg _)
      (Int.emod_lt_of_pos _ (by decide)) (add_nonneg hbalance hamount) hfits hcost hstarted
  have hcap : p.computeCoinSecondsEarned ⟨⟨balance, core⟩, now, ⟨amount, core⟩⟩ ≤ balance * p.unitCost :=
    CddVestingPolicy.compute_le_cap hbalance
  have hiff := available_iff CddVestingPolicy.compute_nonneg hcap hbalance hamount hfits p.unitCost_pos
    (by exact_mod_cast hcost)
  have hcredits : OwnedVesting.Credits ⟨owner, ⟨⟨balance, core⟩, .cdd p⟩⟩ now amount ↔
      Credited (p.computeCoinSecondsEarned ⟨⟨balance, core⟩, now, ⟨amount, core⟩⟩) balance p.unitCost
        amount := by
    constructor
    · rintro ⟨q, hq, hcredited⟩
      cases hq
      exact hcredited
    · exact fun hcredited => ⟨p, rfl, hcredited⟩
  rw [hcredits, ← hiff]
  constructor
  · rintro ⟨before, hb, ha⟩
    rw [hbefore] at hb
    cases hb
    rw [hafter] at ha
    exact congrArg Asset.amount (Except.ok.inj ha)
  · intro heq
    exact ⟨_, hbefore, hafter.trans (congrArg (fun z => Except.ok (Asset.mk z core)) heq)⟩

/-- **A new balance.** -/
theorem available_of_new (hamount : 0 < amount) (hmax : amount < 2 ^ 63)
    (hseconds : reqVestingSeconds < 2 ^ 32) (hnow : 0 < now) :
    x.AvailableAtOnce (x.create ⟨reqOwner, ⟨amount, core⟩,
        .cdd (.lazy now amount reqVestingSeconds false)⟩) now x.next amount ↔
      Credits now amount reqVestingSeconds none := by
  have hcost : (CddVestingPolicy.lazy now amount reqVestingSeconds false).unitCost < 2 ^ 32 := by
    unfold CddVestingPolicy.unitCost
    change max reqVestingSeconds 1 < _
    omega
  have hbefore : x.allowedWithdraw now x.next = .ok ⟨0, core⟩ := by
    unfold allowedWithdraw
    rw [Index.lookup_next]
  have hafter : allowedWithdraw (x.create ⟨reqOwner, ⟨amount, core⟩,
      .cdd (.lazy now amount reqVestingSeconds false)⟩) now x.next = .ok ⟨min (uint128 (int64 (amount * reqVestingSeconds)))
          (amount * (max reqVestingSeconds 1 : ℕ)) / (max reqVestingSeconds 1 : ℕ), core⟩ := by
    have hlookup : (x.create ⟨reqOwner, ⟨amount, core⟩,
        .cdd (.lazy now amount reqVestingSeconds false)⟩).lookup x.next = some ⟨reqOwner, ⟨amount, core⟩,
          .cdd (.lazy now amount reqVestingSeconds false)⟩ := by
      rw [Index.lookup_create, if_pos rfl]
    rw [allowedWithdraw_of_lookup hlookup]
    have hupdate : (CddVestingPolicy.lazy now amount reqVestingSeconds
        false).coinSecondsEarnedLastUpdate = now := rfl
    exact VestingObject.getAllowedWithdraw_stored hupdate (uint128_nonneg _)
      (Int.emod_lt_of_pos _ (by decide)) hamount.le hmax hcost hnow
  have hsame : x.AvailableAtOnce (x.create ⟨reqOwner, ⟨amount, core⟩,
        .cdd (.lazy now amount reqVestingSeconds false)⟩) now x.next amount ↔
      min (uint128 (int64 (amount * reqVestingSeconds)))
        (amount * (max reqVestingSeconds 1 : ℕ)) / (max reqVestingSeconds 1 : ℕ) = amount := by
    constructor
    · rintro ⟨before, hb, ha⟩
      rw [hbefore] at hb
      cases hb
      rw [hafter] at ha
      exact (congrArg Asset.amount (Except.ok.inj ha)).trans (zero_add _)
    · intro heq
      refine ⟨_, hbefore, hafter.trans ?_⟩
      rw [heq, zero_add]
  rw [hsame]
  unfold Credits
  by_cases hpos : 0 < reqVestingSeconds
  · have hone : max reqVestingSeconds 1 = reqVestingSeconds := max_eq_left hpos
    have hcast : (0 : ℤ) < reqVestingSeconds := by exact_mod_cast hpos
    have hwrap : uint128 (0 + uint128 (int64 (amount * reqVestingSeconds))) =
        uint128 (int64 (amount * reqVestingSeconds)) := by
      rw [zero_add]
      exact Int.emod_emod_of_dvd _ dvd_rfl
    have hcap : (0 : ℤ) ≤ 0 * reqVestingSeconds := by rw [zero_mul]
    have hsum : (0 : ℤ) + amount < 2 ^ 63 := by rw [zero_add]; exact hmax
    have hiff := available_iff le_rfl hcap le_rfl hamount.le hsum hcast (by exact_mod_cast hseconds)
    rw [zero_add amount, hwrap, Int.zero_ediv, zero_add] at hiff
    rw [hone, and_iff_right hpos]
    exact hiff
  · -- a unit costs one coin-second, and comes with none
    obtain rfl : reqVestingSeconds = 0 := Nat.eq_zero_of_not_pos hpos
    refine iff_of_false ?_ fun h => hpos h.1
    change min (uint128 (int64 (amount * 0))) (amount * 1) / 1 ≠ amount
    rw [mul_zero, mul_one, show uint128 (int64 0) = 0 from rfl, min_eq_left hamount.le]
    exact hamount.ne

/-- **When cashback that is vested already is available at once**: if and only if the coin-seconds that
come with it pay for it. -/
theorem pre_vested_available_iff {ovbid : Option ℕ} {found : Option (ℕ × OwnedVesting)}
    (hfound : x.target reqVestingSeconds reqOwner ovbid = .ok found) (hamount : 0 ≤ amount)
    (hmax : amount ≤ maxShareSupply) (hseconds : reqVestingSeconds < 2 ^ 32) (hnow : 0 < now)
    (hfine : ∀ id v, found = some (id, v) → v.Fine now amount) :
    ∃ x' created,
      x.depositLazyVesting now ovbid amount reqVestingSeconds reqOwner false = .ok (x', created) ∧
        (x.AvailableAtOnce x' now ((found.map Prod.fst).getD x.next) amount ↔
          amount = 0 ∨ Credits now amount reqVestingSeconds found) := by
  have hmax' : maxShareSupply < 2 ^ 63 := by decide
  unfold depositLazyVesting
  by_cases hzero : amount = 0
  · -- nothing is done
    rw [if_pos hzero]
    refine ⟨x, none, rfl, iff_of_true ?_ (.inl hzero)⟩
    rw [hzero]
    cases found with
    | none =>
      have hnone : x.allowedWithdraw now x.next = .ok ⟨0, core⟩ := by
        unfold allowedWithdraw
        rw [Index.lookup_next]
      exact ⟨_, hnone, hnone⟩
    | some e =>
      obtain ⟨id, v⟩ := e
      obtain ⟨hv, p, hp, -⟩ := target_ok hfound
      have hv' := hfine id v rfl
      have hfits := hv'.fits
      have hallowed : x.allowedWithdraw now id = .ok
          ⟨p.computeCoinSecondsEarned ⟨v.object.balance, now, ⟨0, core⟩⟩ / p.unitCost,
            v.object.balance.assetId⟩ := by
        rw [allowedWithdraw_of_lookup hv]
        unfold VestingObject.getAllowedWithdraw
        rw [hp]
        have hsmall : v.object.balance.amount < 2 ^ 63 := by omega
        exact CddVestingPolicy.getAllowedWithdraw_started (hv'.started p hp) hv'.nonneg hsmall
      refine ⟨_, hallowed, hallowed.trans ?_⟩
      rw [add_zero]
  · rw [if_neg hzero, or_iff_right hzero]
    cases found with
    | none =>
      have hpos : 0 < amount := lt_of_le_of_ne hamount (Ne.symm hzero)
      exact ⟨_, _, except_bind_eq_ok.mpr ⟨none, hfound, rfl⟩,
        available_of_new hpos (hmax.trans_lt hmax') hseconds hnow⟩
    | some e =>
      obtain ⟨id, v⟩ := e
      obtain ⟨hv, p, hp, hperiod⟩ := target_ok hfound
      obtain ⟨object, hdeposit, hiff⟩ := available_of_existing hv hp (by rw [hperiod]; exact hseconds)
        (hfine id v rfl) hamount
      have hrun : (if false = true then v.object.deposit now ⟨amount, core⟩
          else v.object.depositVested now ⟨amount, core⟩) = .ok object := hdeposit
      exact ⟨_, _, except_bind_eq_ok.mpr ⟨some (id, v), hfound, except_bind_eq_ok.mpr ⟨object, hrun, rfl⟩⟩,
        hiff⟩

section Example

/-- A balance of 300 that vests in a hundred seconds. -/
private def threeHundred : OwnedVesting where
  owner := 10
  object := ⟨⟨300, core⟩,
    .cdd { vestingSeconds := 100, coinSecondsEarned := 0, coinSecondsEarnedLastUpdate := 1000 }⟩

/-- After fifty seconds 150 are available, and 40 more with a deposit. -/
theorem pre_vested_available_forty : ∃ x x' : Vestings, ∃ created,
    x.depositLazyVesting 1050 (some 0) 40 100 10 false = .ok (x', created) ∧
      x.AvailableAtOnce x' 1050 0 40 ∧ x.allowedWithdraw 1050 0 = .ok ⟨150, core⟩ := by
  have hfound : target (Index.empty.create threeHundred) 100 10 (some 0) =
      .ok (some (0, threeHundred)) := by
    decide +kernel
  have hfine : ∀ id v, some (0, threeHundred) = some (id, v) → v.Fine 1050 40 := by
    intro id v heq
    cases heq
    refine ⟨rfl, by decide, by decide, fun p hp => ?_⟩
    cases hp
    decide
  obtain ⟨x', created, hrun, hiff⟩ := pre_vested_available_iff hfound (by decide) (by decide) (by decide)
    (by decide) hfine
  refine ⟨_, x', created, hrun, hiff.mpr (.inr ?_), by decide +kernel⟩
  exact ⟨_, rfl, .inl (by decide)⟩

/-- With a period of zero, what a new balance gets is not available. -/
theorem not_pre_vested_available :
    ¬ ∀ (x x' : Vestings) (now : ℕ) (ovbid created : Option ℕ) (amount : ℤ) (seconds owner : ℕ),
      0 ≤ amount → amount ≤ maxShareSupply → seconds < 2 ^ 32 → 0 < now → ovbid = none →
      x.depositLazyVesting now ovbid amount seconds owner false = .ok (x', created) →
      x.AvailableAtOnce x' now x.next amount := by
  intro hall
  obtain ⟨before, hbefore, hafter⟩ := hall .empty _ 1000 none _ 5 0 10 (by decide) (by decide) (by decide)
    (by decide) rfl rfl
  cases hbefore
  exact absurd hafter (by decide +kernel)

end Example

end Vestings

end FinChain.Ledger
