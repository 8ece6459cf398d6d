import FinChain.Ledger.State
import Mathlib.Algebra.Group.Pi.Lemmas

/-!
# What the basic functions do

One lemma for each of the functions that the evaluators are made of: which table a call that
returns has changed, and by how much. Quantities of all assets at once are functions from assets to
integers; `Asset.vec` is the quantity that consists of one asset.
-/

namespace FinChain.Ledger

open Exec

/-- An amount of one asset and nothing of the others. -/
def Asset.vec (a : Asset) : ℕ → ℤ := Pi.single a.assetId a.amount

theorem Asset.vec_neg (a : Asset) : a.neg.vec = -a.vec :=
  Pi.single_neg _ _

theorem Asset.vec_add (x y : ℤ) (i : ℕ) : vec ⟨x + y, i⟩ = vec ⟨x, i⟩ + vec ⟨y, i⟩ :=
  Pi.single_add _ _ _

theorem Asset.vec_sub (x y : ℤ) (i : ℕ) : vec ⟨x - y, i⟩ = vec ⟨x, i⟩ - vec ⟨y, i⟩ :=
  Pi.single_sub _ _ _

theorem Asset.vec_of_zero {a : Asset} (h : a.amount = 0) : a.vec = 0 := by
  unfold vec
  rw [h, Pi.single_zero]

/-! ### Balances -/

/-- All balances. -/
def held (t : Table (ℕ × ℕ) AccountBalance) : ℕ → ℤ := t.total fun k b => Asset.vec ⟨b.balance, k.2⟩

/-- The set of locked balances of an account. -/
def lockedsAt (t : Table (ℕ × ℕ) AccountBalance) (key : ℕ × ℕ) : Finset ℕ :=
  (t.lookup key).elim ∅ AccountBalance.lockeds

theorem lockedsAt_of_lookup {t : Table (ℕ × ℕ) AccountBalance} {key : ℕ × ℕ} {b : AccountBalance}
    (h : t.lookup key = some b) : lockedsAt t key = b.lockeds := by
  rw [lockedsAt, h, Option.elim_some]

theorem lockedsAt_insert (t : Table (ℕ × ℕ) AccountBalance) (key : ℕ × ℕ) (b : AccountBalance)
    (key' : ℕ × ℕ) :
    lockedsAt (t.insert key b) key' = if key' = key then b.lockeds else lockedsAt t key' := by
  unfold lockedsAt
  split
  · next h => rw [h, AList.lookup_insert, Option.elim_some]
  · next h => rw [AList.lookup_insert_ne h]

/-- **`adjust_balance`** changes one balance and no set of locked balances. -/
theorem adjustBalance_ok {account : ℕ} {delta : Asset} {s s' : Books} {u : Unit}
    (h : adjustBalance account delta s = .ok u s') :
    ∃ t, s' = { s with balances := t } ∧ held t = held s.balances + delta.vec ∧
      lockedsAt t = lockedsAt s.balances := by
  unfold adjustBalance at h
  split at h
  · next hzero =>
    obtain ⟨-, rfl⟩ := pure_eq_ok.mp h
    exact ⟨s.balances, rfl, by rw [Asset.vec_of_zero hzero, add_zero], rfl⟩
  rw [get_bind] at h
  cases hb : s.balances.lookup (account, delta.assetId) with
  | none =>
    rw [hb] at h
    obtain ⟨-, h⟩ := assert_bind_eq_ok.mp h
    obtain rfl := update_eq_ok.mp h
    refine ⟨_, rfl, ?_, ?_⟩
    · exact Table.total_insert_of_none _ _ hb
    · funext key
      rw [lockedsAt_insert]
      split
      · next hkey => rw [hkey, lockedsAt, hb, Option.elim_none]
      · rfl
  | some b =>
    rw [hb] at h
    obtain ⟨-, h⟩ := assert_bind_eq_ok.mp h
    obtain rfl := update_eq_ok.mp h
    refine ⟨_, rfl, ?_, ?_⟩
    · have htotal := Table.total_insert_of_lookup
        (fun (k : ℕ × ℕ) (b : AccountBalance) => Asset.vec ⟨b.balance, k.2⟩)
        { b with balance := b.balance + delta.amount } hb
      rw [held, htotal, Asset.vec_add, add_sub_cancel_left]
      rfl
    · funext key
      rw [lockedsAt_insert]
      split
      · next hkey => rw [hkey, lockedsAt_of_lookup hb]
      · rfl

/-- No balance is negative. -/
def BalancesNonneg (t : Table (ℕ × ℕ) AccountBalance) : Prop :=
  ∀ key b, t.lookup key = some b → 0 ≤ b.balance

theorem BalancesNonneg.insert {t : Table (ℕ × ℕ) AccountBalance} (ht : BalancesNonneg t)
    (key : ℕ × ℕ) {b : AccountBalance} (hb : 0 ≤ b.balance) : BalancesNonneg (t.insert key b) := by
  intro key' b' h
  by_cases hkey : key' = key
  · rw [hkey, AList.lookup_insert] at h
    cases h
    exact hb
  · rw [AList.lookup_insert_ne hkey] at h
    exact ht key' b' h

/-- **`adjust_balance`** does not make a balance negative. -/
theorem adjustBalance_nonneg {account : ℕ} {delta : Asset} {s s' : Books} {u : Unit}
    (hs : BalancesNonneg s.balances) (h : adjustBalance account delta s = .ok u s') :
    BalancesNonneg s'.balances := by
  unfold adjustBalance at h
  split at h
  · obtain ⟨-, rfl⟩ := pure_eq_ok.mp h
    exact hs
  rw [get_bind] at h
  cases hb : s.balances.lookup (account, delta.assetId) with
  | none =>
    rw [hb] at h
    obtain ⟨hpos, h⟩ := assert_bind_eq_ok.mp h
    obtain rfl := update_eq_ok.mp h
    exact hs.insert _ hpos.le
  | some b =>
    rw [hb] at h
    obtain ⟨hcovered, h⟩ := assert_bind_eq_ok.mp h
    obtain rfl := update_eq_ok.mp h
    have hold : 0 ≤ b.balance := hs _ _ hb
    refine hs.insert _ ?_
    change 0 ≤ b.balance + delta.amount
    omega

theorem Books.getBalance_insert (s : Books) (key : ℕ × ℕ) (b : AccountBalance) (owner assetId : ℕ) :
    Books.getBalance { s with balances := s.balances.insert key b } owner assetId =
      if (owner, assetId) = key then b.balance else s.getBalance owner assetId := by
  unfold getBalance
  split
  · next h => rw [h, AList.lookup_insert, Option.map_some, Option.getD_some]
  · next h => rw [AList.lookup_insert_ne h]

theorem Books.getBalance_of_lookup {s : Books} {owner assetId : ℕ} {b : AccountBalance}
    (h : s.balances.lookup (owner, assetId) = some b) : s.getBalance owner assetId = b.balance := by
  rw [getBalance, h, Option.map_some, Option.getD_some]

theorem Books.getBalance_of_none {s : Books} {owner assetId : ℕ}
    (h : s.balances.lookup (owner, assetId) = none) : s.getBalance owner assetId = 0 := by
  rw [getBalance, h, Option.map_none, Option.getD_none]

/-- **`adjust_balance`** adds to the balance of one account in one asset. -/
theorem adjustBalance_getBalance {account : ℕ} {delta : Asset} {s s' : Books} {u : Unit}
    (h : adjustBalance account delta s = .ok u s') (owner assetId : ℕ) :
    s'.getBalance owner assetId = s.getBalance owner assetId +
      if (owner, assetId) = (account, delta.assetId) then delta.amount else 0 := by
  unfold adjustBalance at h
  split at h
  · next hzero =>
    obtain ⟨-, rfl⟩ := pure_eq_ok.mp h
    rw [hzero, ite_self, add_zero]
  rw [get_bind] at h
  cases hb : s.balances.lookup (account, delta.assetId) with
  | none =>
    rw [hb] at h
    obtain ⟨-, h⟩ := assert_bind_eq_ok.mp h
    obtain rfl := update_eq_ok.mp h
    rw [Books.getBalance_insert]
    split
    · next hkey =>
      cases hkey
      rw [Books.getBalance_of_none hb, zero_add]
    · rw [add_zero]
  | some b =>
    rw [hb] at h
    obtain ⟨-, h⟩ := assert_bind_eq_ok.mp h
    obtain rfl := update_eq_ok.mp h
    rw [Books.getBalance_insert]
    split
    · next hkey =>
      cases hkey
      rw [Books.getBalance_of_lookup hb]
    · rw [add_zero]

/-- **`adjust_balance`** returns if the balance does not become negative. -/
theorem adjustBalance_returns {account : ℕ} {delta : Asset} {s : Books}
    (h : 0 ≤ s.getBalance account delta.assetId + delta.amount) :
    ∃ t, adjustBalance account delta s = .ok () { s with balances := t } := by
  unfold adjustBalance
  split
  · exact ⟨s.balances, rfl⟩
  · next hne =>
    rw [get_bind]
    cases hb : s.balances.lookup (account, delta.assetId) with
    | none =>
      rw [Books.getBalance_of_none hb] at h
      exact ⟨_, assert_bind_eq_ok.mpr ⟨by omega, rfl⟩⟩
    | some b =>
      rw [Books.getBalance_of_lookup hb] at h
      exact ⟨_, assert_bind_eq_ok.mpr ⟨by omega, rfl⟩⟩

/-! ### Modifications -/

theorem modifyStatistics_ok {account : ℕ} {g : AccountStatistics → AccountStatistics} {s s' : Books}
    {u : Unit} (h : modifyStatistics account g s = .ok u s') :
    ∃ a, s.statistics.lookup account = some a ∧
      s' = { s with statistics := s.statistics.insert account (g a) } := by
  unfold modifyStatistics at h
  rw [get_bind] at h
  obtain ⟨a, ha, h⟩ := require_bind_eq_ok.mp h
  exact ⟨a, ha, update_eq_ok.mp h⟩

theorem modifyDynamicData_ok {assetId : ℕ} {g : AssetDynamicData → AssetDynamicData} {s s' : Books}
    {u : Unit} (h : modifyDynamicData assetId g s = .ok u s') :
    ∃ d, s.dynamicData.lookup assetId = some d ∧
      s' = { s with dynamicData := s.dynamicData.insert assetId (g d) } := by
  unfold modifyDynamicData at h
  rw [get_bind] at h
  obtain ⟨d, hd, h⟩ := require_bind_eq_ok.mp h
  exact ⟨d, hd, update_eq_ok.mp h⟩

/-! ### Fees -/

theorem uint128_of_lt {x : ℤ} (h : 0 ≤ x) (hlt : x < 2 ^ 128) : uint128 x = x :=
  Int.emod_eq_of_lt h hlt

theorem uint128_nonneg (x : ℤ) : 0 ≤ uint128 x := Int.emod_nonneg _ (by decide)

theorem uint128_le {x : ℤ} (h : 0 ≤ x) : uint128 x ≤ x := by
  unfold uint128
  omega

theorem Asset.mul_of_base {a : Asset} {p : Price} (h : a.assetId = p.base.assetId) :
    a.mul p = convert a.amount p.quote p.base := by
  rw [mul, if_pos h]

theorem Asset.convert_eq_ok {amount : ℤ} {num den a : Asset} :
    convert amount num den = .ok a ↔ 0 < den.amount ∧
      uint128 (uint128 amount * num.amount) / den.amount ≤ maxShareSupply ∧
      a = ⟨uint128 (uint128 amount * num.amount) / den.amount, num.assetId⟩ := by
  unfold convert
  simp only
  split
  · next h => simp [h, eq_comm]
  · next h =>
    refine ⟨?_, fun hok => absurd ⟨hok.1, hok.2.1⟩ h⟩
    intro hok
    cases hok

/-- A conversion never gives a negative amount. -/
theorem Asset.convert_ok {amount : ℤ} {num den a : Asset} (h : convert amount num den = .ok a) :
    0 ≤ a.amount ∧ a.assetId = num.assetId := by
  obtain ⟨hden, -, rfl⟩ := convert_eq_ok.mp h
  refine ⟨Int.ediv_nonneg ?_ hden.le, rfl⟩
  exact Int.emod_nonneg _ (by norm_num)

theorem Asset.mul_ok {a b : Asset} {p : Price} (h : a.mul p = .ok b) : 0 ≤ b.amount := by
  unfold mul at h
  split at h
  · exact (convert_ok h).1
  split at h
  · exact (convert_ok h).1
  · cases h

/-- **`prepare_fee`** changes nothing; the fee in core is not negative, and the fee pool covers it if
it is paid in another asset. -/
theorem prepareFee_ok {S : Settings} {account : ℕ} {fee : Asset} {f : ℤ} {s s' : Books}
    (h : prepareFee S account fee s = .ok f s') :
    s = s' ∧ 0 ≤ fee.amount ∧ 0 ≤ f ∧ (fee.assetId = core → f = fee.amount) ∧
      (fee.assetId ≠ core → ∀ d, s.dynamicData.lookup fee.assetId = some d → f ≤ d.feePool) := by
  unfold prepareFee at h
  rw [get_bind, assert_bind_eq_ok] at h
  obtain ⟨hnonneg, h⟩ := h
  obtain ⟨-, -, h⟩ := require_bind_eq_ok.mp h
  obtain ⟨a, -, h⟩ := require_bind_eq_ok.mp h
  obtain ⟨d, hd, h⟩ := require_bind_eq_ok.mp h
  obtain ⟨-, h⟩ := assert_bind_eq_ok.mp h
  split at h
  · next hcore =>
    obtain ⟨rfl, rfl⟩ := pure_eq_ok.mp h
    exact ⟨rfl, hnonneg, hnonneg, fun _ => rfl, fun hne => absurd hcore hne⟩
  · next hcore =>
    obtain ⟨b, hb, h⟩ := lift_bind_eq_ok.mp h
    obtain ⟨-, h⟩ := assert_bind_eq_ok.mp h
    obtain ⟨hpool, h⟩ := assert_bind_eq_ok.mp h
    obtain ⟨rfl, rfl⟩ := pure_eq_ok.mp h
    refine ⟨rfl, hnonneg, Asset.mul_ok hb, fun hid => absurd hid hcore, fun _ d' hd' => ?_⟩
    rw [hd] at hd'
    cases hd'
    exact hpool

/-- The fees that were accumulated and the fee pools, less the supply. -/
def fundsLessSupply (t : Table ℕ AssetDynamicData) : ℕ → ℤ :=
  t.total fun k d =>
    Asset.vec ⟨d.accumulatedFees, k⟩ + Asset.vec ⟨d.feePool, core⟩ - Asset.vec ⟨d.currentSupply, k⟩

/-- The fees the accounts have paid and that are not distributed yet. -/
def pendingFees (t : Table ℕ AccountStatistics) : ℕ → ℤ :=
  t.total fun _ a => Asset.vec ⟨a.pendingFees, core⟩ + Asset.vec ⟨a.pendingVestedFees, core⟩

/-- **`convert_fee`** takes a fee that is not in core in, and gives the fee in core out of the
pool. -/
theorem convertFee_ok {fee : Asset} {f : ℤ} {s s' : Books} {u : Unit}
    (h : convertFee fee f s = .ok u s') :
    ∃ t, s' = { s with dynamicData := t } ∧ fundsLessSupply t = fundsLessSupply s.dynamicData +
      if fee.assetId = core then 0 else fee.vec - Asset.vec ⟨f, core⟩ := by
  unfold convertFee at h
  split at h
  · next hid =>
    obtain ⟨-, rfl⟩ := pure_eq_ok.mp h
    exact ⟨s.dynamicData, rfl, by rw [if_pos hid, add_zero]⟩
  · next hid =>
    obtain ⟨d, hd, rfl⟩ := modifyDynamicData_ok h
    refine ⟨_, rfl, ?_⟩
    rw [if_neg hid]
    unfold fundsLessSupply
    rw [Table.total_insert_of_lookup _ _ hd, Asset.vec_add, Asset.vec_sub]
    congr 1
    change _ + fee.vec + _ - _ - _ = _
    abel

/-- **`account_statistics_object::pay_fee`**. -/
theorem modifyStatistics_payFee {account : ℕ} {threshold f : ℤ} {s s' : Books} {u : Unit}
    (h : modifyStatistics account (AccountStatistics.payFee threshold f) s = .ok u s') :
    ∃ t, s' = { s with statistics := t } ∧
      pendingFees t = pendingFees s.statistics + Asset.vec ⟨f, core⟩ := by
  obtain ⟨a, ha, rfl⟩ := modifyStatistics_ok h
  refine ⟨_, rfl, ?_⟩
  unfold pendingFees
  rw [Table.total_insert_of_lookup _ _ ha]
  congr 1
  unfold AccountStatistics.payFee
  split
  · rw [Asset.vec_add]
    abel
  · rw [Asset.vec_add]
    abel

theorem payFee_ok {account : ℕ} {f : ℤ} {s s' : Books} {u : Unit}
    (h : payFee account f s = .ok u s') :
    ∃ t, s' = { s with statistics := t } ∧
      pendingFees t = pendingFees s.statistics + Asset.vec ⟨f, core⟩ := by
  unfold payFee at h
  rw [get_bind] at h
  exact modifyStatistics_payFee h

theorem Evaluator.run_eq_ok {ρ : Type} {S : Settings} {skip : Bool} {e : Evaluator ρ} {s s' : Books}
    {u : Unit} : e.run S skip s = .ok u s' ↔
    ∃ f m s₁ s₂ s₃ s₄, prepareFee S e.feePayer e.fee s = .ok f s ∧
      (skip = true ∨ S.calculateFee s e.kind ≤ f) ∧
      e.doEvaluate s = .ok m s₁ ∧ convertFee e.fee (e.coreFeePaid f) s₁ = .ok () s₂ ∧
      e.payFee (e.coreFeePaid f) s₂ = .ok () s₃ ∧ e.doApply (e.coreFeePaid f) m s₃ = .ok () s₄ ∧
      adjustBalance e.feePayer e.fee.neg s₄ = .ok () s' := by
  unfold run
  constructor
  · intro h
    obtain ⟨f, s₀, hprepare, h⟩ := bind_eq_ok.mp h
    obtain ⟨rfl, -⟩ := prepareFee_ok hprepare
    rw [get_bind, assert_bind_eq_ok] at h
    obtain ⟨hfee, h⟩ := h
    obtain ⟨m, s₁, hevaluate, h⟩ := bind_eq_ok.mp h
    obtain ⟨_, s₂, hconvert, h⟩ := bind_eq_ok.mp h
    obtain ⟨_, s₃, hpay, h⟩ := bind_eq_ok.mp h
    obtain ⟨_, s₄, happly, h⟩ := bind_eq_ok.mp h
    exact ⟨f, m, s₁, s₂, s₃, s₄, hprepare, hfee, hevaluate, hconvert, hpay, happly, h⟩
  · rintro ⟨f, m, s₁, s₂, s₃, s₄, hprepare, hfee, hevaluate, hconvert, hpay, happly, h⟩
    refine bind_eq_ok.mpr ⟨f, s, hprepare, ?_⟩
    rw [get_bind, assert_bind_eq_ok]
    exact ⟨hfee, bind_eq_ok.mpr ⟨m, s₁, hevaluate, bind_eq_ok.mpr ⟨(), s₂, hconvert,
      bind_eq_ok.mpr ⟨(), s₃, hpay, bind_eq_ok.mpr ⟨(), s₄, happly, h⟩⟩⟩⟩⟩

theorem Evaluator.run_ok {ρ : Type} {S : Settings} {skip : Bool} {e : Evaluator ρ} {s s' : Books}
    {u : Unit} (h : e.run S skip s = .ok u s') :
    ∃ f m s₁ s₂ s₃ s₄, prepareFee S e.feePayer e.fee s = .ok f s ∧
      e.doEvaluate s = .ok m s₁ ∧ convertFee e.fee (e.coreFeePaid f) s₁ = .ok () s₂ ∧
      e.payFee (e.coreFeePaid f) s₂ = .ok () s₃ ∧ e.doApply (e.coreFeePaid f) m s₃ = .ok () s₄ ∧
      adjustBalance e.feePayer e.fee.neg s₄ = .ok () s' := by
  obtain ⟨f, m, s₁, s₂, s₃, s₄, hprepare, -, hsteps⟩ := run_eq_ok.mp h
  exact ⟨f, m, s₁, s₂, s₃, s₄, hprepare, hsteps⟩

/-- The steps of an evaluator that changes nothing before it is applied and pays its fee in the usual
way. -/
theorem Evaluator.run_around {ρ : Type} {S : Settings} {skip : Bool} {e : Evaluator ρ} {s s' : Books}
    {u : Unit} (hpay : e.payFee = Ledger.payFee e.feePayer)
    (hread : ∀ {m s₁}, e.doEvaluate s = .ok m s₁ → s₁ = s) (h : e.run S skip s = .ok u s') :
    ∃ f m t t' s₄, e.doEvaluate s = .ok m s ∧
      e.doApply f m { s with dynamicData := t, statistics := t' } = .ok () s₄ ∧
      adjustBalance e.feePayer e.fee.neg s₄ = .ok () s' := by
  obtain ⟨f, m, s₁, s₂, s₃, s₄, -, hevaluate, hconvert, hpaid, happlied, hfee⟩ := run_ok h
  obtain rfl := hread hevaluate
  obtain ⟨t, rfl, -⟩ := convertFee_ok hconvert
  rw [hpay] at hpaid
  obtain ⟨t', rfl, -⟩ := payFee_ok hpaid
  exact ⟨_, m, t, t', s₄, hevaluate, happlied, hfee⟩

end FinChain.Ledger
