import FinChain.Ledger.Lock
import FinChain.Ledger.Effects

/-!
# Locked balances are conserved and paid once

What an account locks leaves its balance together with the interest that leaves the pool, and it
stays in the locked balance until it is unlocked. So the balances, the unfinished locked balances
and the interest pools (`lockWorth`) add up to the same, except for the fees of the operations,
which are paid out of the balances (`lockWorth_runLockOperations`).

`LockInv` says who owns a locked balance: an unfinished one is in the set of exactly the account
that locked it, and a finished one in none. Since unlocking asks for it to be in the set of the
account that is paid, and since it is then finished, it pays once, and to that account. The payouts
are recorded in the history variable `payouts`.
-/

namespace FinChain.Ledger

open Exec

/-! ### The sum and the invariant -/

/-- The unfinished locked balances. -/
def lockedUp (x : Index LockedBalance) : ℕ → ℤ :=
  x.total fun _ l => if l.finish then 0 else Asset.vec ⟨l.lockedBalance, l.assetId⟩

/-- The interest pools. -/
def pooled (t : Table ℕ AssetLockData) : ℕ → ℤ := t.total fun k d => Asset.vec ⟨d.interestPool, k⟩

/-- Account balances, unfinished locked balances and interest pools, for each asset. -/
def lockWorth (s : Books) : ℕ → ℤ := held s.balances + lockedUp s.lockedBalances + pooled s.lockData

/-- The payout is one that the locked balance allows, to the account that locked it. -/
structure Payout.Of (p : Payout) (l : LockedBalance) : Prop where
  account : p.account = l.lockedBy
  amount : p.amount = l.lockedBalance ∧ p.toPool = 0 ∨
    p.amount = l.initialLockBalance ∧ p.toPool = l.lockedBalance - l.initialLockBalance

/-- An unfinished locked balance is in the set of the account that locked it and in no other, a
finished one in none. The payouts are those of the finished ones, one each at most. -/
structure LockInv (s : Books) : Prop where
  owned : ∀ key id, id ∈ lockedsAt s.balances key ↔
    ∃ l, s.lockedBalances.lookup id = some l ∧ l.finish = false ∧ key = (l.lockedBy, l.assetId)
  paid : ∀ p ∈ s.payouts, ∃ l, s.lockedBalances.lookup p.lockedId = some l ∧ l.finish = true ∧ p.Of l
  once : (s.payouts.map Payout.lockedId).Nodup

/-- A step keeps the invariant and changes the sum by `d`. -/
structure Moves (d : ℕ → ℤ) (s s' : Books) : Prop where
  inv : LockInv s → LockInv s'
  worth : lockWorth s' = lockWorth s + d

theorem Moves.trans {d₁ d₂ : ℕ → ℤ} {s s₁ s₂ : Books} (h₁ : Moves d₁ s s₁) (h₂ : Moves d₂ s₁ s₂) :
    Moves (d₁ + d₂) s s₂ where
  inv h := h₂.inv (h₁.inv h)
  worth := by rw [h₂.worth, h₁.worth, add_assoc]

/-- Steps that leave balances, locks and pools alone. -/
theorem Moves.of_eq {s s' : Books} (hb : s'.balances = s.balances)
    (hl : s'.lockedBalances = s.lockedBalances) (hd : s'.lockData = s.lockData)
    (hp : s'.payouts = s.payouts) : Moves 0 s s' where
  inv h := by
    refine ⟨?_, ?_, ?_⟩
    · rw [hb, hl]
      exact h.owned
    · rw [hp, hl]
      exact h.paid
    · rw [hp]
      exact h.once
  worth := by rw [lockWorth, hb, hl, hd, add_zero, lockWorth]

/-- Steps that change balances and pools, but neither locks nor whose they are. -/
theorem Moves.of_amounts {d : ℕ → ℤ} {s s' : Books} (hb : lockedsAt s'.balances = lockedsAt s.balances)
    (hl : s'.lockedBalances = s.lockedBalances) (hp : s'.payouts = s.payouts)
    (hd : held s'.balances + pooled s'.lockData = held s.balances + pooled s.lockData + d) :
    Moves d s s' where
  inv h := by
    refine ⟨?_, ?_, ?_⟩
    · rw [hb, hl]
      exact h.owned
    · rw [hp, hl]
      exact h.paid
    · rw [hp]
      exact h.once
  worth := by
    calc lockWorth s'
        = held s'.balances + pooled s'.lockData + lockedUp s.lockedBalances := by
          rw [lockWorth, hl]
          abel
      _ = lockWorth s + d := by
          rw [hd, lockWorth]
          abel

theorem moves_adjustBalance {account : ℕ} {delta : Asset} {s s' : Books} {u : Unit}
    (h : adjustBalance account delta s = .ok u s') : Moves delta.vec s s' := by
  obtain ⟨t, rfl, hheld, hlockeds⟩ := adjustBalance_ok h
  refine .of_amounts hlockeds rfl rfl ?_
  change held t + pooled s.lockData = _
  rw [hheld]
  abel

/-! ### Parts of the operations -/

theorem modifyLockData_ok {assetId : ℕ} {g : AssetLockData → AssetLockData} {s s' : Books} {u : Unit}
    (h : modifyLockData assetId g s = .ok u s') :
    ∃ d, s.lockData.lookup assetId = some d ∧
      s' = { s with lockData := s.lockData.insert assetId (g d) } := by
  unfold modifyLockData at h
  rw [get_bind] at h
  obtain ⟨d, hd, h⟩ := require_bind_eq_ok.mp h
  exact ⟨d, hd, update_eq_ok.mp h⟩

theorem pooled_insert {t : Table ℕ AssetLockData} {assetId : ℕ} {d d' : AssetLockData}
    (h : t.lookup assetId = some d) (x : ℤ) (hd : d'.interestPool = d.interestPool + x) :
    pooled (t.insert assetId d') = pooled t + Asset.vec ⟨x, assetId⟩ := by
  unfold pooled
  rw [Table.total_insert_of_lookup _ d' h, hd, Asset.vec_add, add_sub_cancel_left]

theorem modifyLockeds_ok {account assetId : ℕ} {g : Finset ℕ → Finset ℕ} {s s' : Books} {u : Unit}
    (h : modifyLockeds account assetId g s = .ok u s') :
    ∃ t, s' = { s with balances := t } ∧ held t = held s.balances ∧
      ∀ key, lockedsAt t key = if key = (account, assetId) then g (lockedsAt s.balances key)
        else lockedsAt s.balances key := by
  unfold modifyLockeds at h
  rw [get_bind] at h
  obtain ⟨b, hb, h⟩ := require_bind_eq_ok.mp h
  refine ⟨_, update_eq_ok.mp h, ?_, fun key => ?_⟩
  · unfold held
    rw [Table.total_insert_of_lookup _ _ hb, sub_self, add_zero]
  · rw [lockedsAt_insert]
    split
    · next hkey => rw [hkey, lockedsAt_of_lookup hb]
    · rfl

/-! ### Reading -/

/-- Programs that change nothing. -/
theorem readFrame : Frame fun s s' : Books => s' = s := Frame.eq id

theorem SetLockData.doEvaluate_reads (op : SetLockData) :
    Keeps (fun s s' : Books => s' = s) op.doEvaluate :=
  readFrame.keeps_bind readFrame.keeps_get fun _ =>
    readFrame.keeps_bind (readFrame.keeps_require _ _) fun _ =>
      readFrame.keeps_bind (readFrame.keeps_assert _ _) fun _ =>
        readFrame.keeps_bind (readFrame.keeps_assert _ _) fun _ => readFrame.keeps_assert _ _

theorem LockBalance.doEvaluate_reads (S : Settings) (op : LockBalance) :
    Keeps (fun s s' : Books => s' = s) (op.doEvaluate S) :=
  readFrame.keeps_bind readFrame.keeps_get fun _ =>
    readFrame.keeps_bind (readFrame.keeps_require _ _) fun _ =>
      readFrame.keeps_bind (readFrame.keeps_require _ _) fun _ =>
        readFrame.keeps_bind (readFrame.keeps_assert _ _) fun _ =>
          readFrame.keeps_bind (readFrame.keeps_require _ _) fun _ =>
            readFrame.keeps_bind (readFrame.keeps_assert _ _) fun _ => readFrame.keeps_pure _

theorem UnlockBalance.doEvaluate_reads (op : UnlockBalance) :
    Keeps (fun s s' : Books => s' = s) op.doEvaluate :=
  readFrame.keeps_bind readFrame.keeps_get fun _ =>
    readFrame.keeps_bind (readFrame.keeps_require _ _) fun _ => readFrame.keeps_assert _ _

theorem DonationBalance.doEvaluate_reads (op : DonationBalance) :
    Keeps (fun s s' : Books => s' = s) op.doEvaluate :=
  readFrame.keeps_bind readFrame.keeps_get fun _ => readFrame.keeps_assert _ _

/-! ### The four operations -/

/-- An evaluator that changes nothing before it is applied moves what `do_apply` moves, less the
fee. -/
theorem moves_run {ρ : Type} {S : Settings} {skip : Bool} {e : Evaluator ρ} {d : ℕ → ℤ}
    {s s' : Books} {u : Unit} (hpay : e.payFee = payFee e.feePayer)
    (hread : ∀ {m s₁}, e.doEvaluate s = .ok m s₁ → s₁ = s)
    (happly : ∀ {f m t t' s₁}, e.doEvaluate s = .ok m s →
      e.doApply f m { s with dynamicData := t, statistics := t' } = .ok () s₁ →
      Moves d { s with dynamicData := t, statistics := t' } s₁)
    (h : e.run S skip s = .ok u s') : Moves (d - e.fee.vec) s s' := by
  obtain ⟨f, m, t, t', s₄, hevaluate, happlied, hfee⟩ := Evaluator.run_around hpay hread h
  have hfees : Moves 0 s { s with dynamicData := t, statistics := t' } := .of_eq rfl rfl rfl rfl
  have hmoves := (hfees.trans (happly hevaluate happlied)).trans (moves_adjustBalance hfee)
  rwa [Asset.vec_neg, zero_add, ← sub_eq_add_neg] at hmoves

theorem SetLockData.moves_doApply {op : SetLockData} {s s' : Books} {u : Unit}
    (hnonneg : 0 ≤ op.initInterestPool.amount)
    (hnone : s.lockData.lookup op.initInterestPool.assetId = none) (h : op.doApply s = .ok u s') :
    Moves 0 s s' := by
  unfold doApply at h
  rw [get_bind] at h
  obtain ⟨-, h⟩ := assert_bind_eq_ok.mp h
  obtain ⟨_, s₁, hadjust, h⟩ := bind_eq_ok.mp h
  obtain rfl := update_eq_ok.mp h
  -- the pool of the issuer leaves his balance, also when it is zero
  obtain ⟨t, rfl, hheld, hlockeds⟩ : ∃ t, s₁ = { s with balances := t } ∧
      held t = held s.balances - op.initInterestPool.vec ∧ lockedsAt t = lockedsAt s.balances := by
    unfold payPool at hadjust
    split at hadjust
    · obtain ⟨t, rfl, hheld, hlockeds⟩ := adjustBalance_ok hadjust
      exact ⟨t, rfl, by rw [hheld, Asset.vec_neg, sub_eq_add_neg], hlockeds⟩
    · next hpos =>
      obtain ⟨-, rfl⟩ := pure_eq_ok.mp hadjust
      have hzero : op.initInterestPool.amount = 0 := by omega
      exact ⟨s.balances, rfl, by rw [Asset.vec_of_zero hzero, sub_zero], rfl⟩
  refine .of_amounts hlockeds rfl rfl ?_
  change held t + pooled (s.lockData.insert op.initInterestPool.assetId _) = _
  rw [hheld, pooled, Table.total_insert_of_none _ _ hnone]
  change held s.balances - op.initInterestPool.vec + (pooled s.lockData + op.initInterestPool.vec) = _
  abel

theorem DonationBalance.moves_doApply {op : DonationBalance} {s s' : Books} {u : Unit}
    (h : op.doApply s = .ok u s') : Moves 0 s s' := by
  unfold doApply at h
  rw [get_bind] at h
  obtain ⟨-, -, h⟩ := require_bind_eq_ok.mp h
  obtain ⟨-, -, h⟩ := require_bind_eq_ok.mp h
  obtain ⟨_, s₁, hadjust, h⟩ := bind_eq_ok.mp h
  obtain ⟨t, rfl, hheld, hlockeds⟩ := adjustBalance_ok hadjust
  obtain ⟨d, hd, rfl⟩ := modifyLockData_ok h
  refine .of_amounts hlockeds rfl rfl ?_
  change held t + pooled (s.lockData.insert op.amount.assetId _) = _
  rw [hheld, pooled_insert hd op.amount.amount rfl, Asset.vec_neg]
  change _ + -op.amount.vec + (_ + op.amount.vec) = _
  abel

/-- A new locked balance. -/
theorem LockInv.locked {s s' : Books} {key₀ : ℕ × ℕ} {l₀ : LockedBalance} (h : LockInv s)
    (hkey : key₀ = (l₀.lockedBy, l₀.assetId)) (hfinish : l₀.finish = false)
    (hlockeds : ∀ key, lockedsAt s'.balances key = if key = key₀
      then insert s.lockedBalances.next (lockedsAt s.balances key) else lockedsAt s.balances key)
    (hlocks : s'.lockedBalances = s.lockedBalances.create l₀) (hp : s'.payouts = s.payouts) :
    LockInv s' := by
  have hnext : s.lockedBalances.lookup s.lockedBalances.next = none := s.lockedBalances.lookup_next
  refine ⟨fun key id => ?_, ?_, ?_⟩
  · rw [hlockeds, hlocks, Index.lookup_create]
    by_cases hid : id = s.lockedBalances.next
    · subst hid
      rw [if_pos rfl]
      have hfresh : s.lockedBalances.next ∉ lockedsAt s.balances key := by
        rw [h.owned, hnext]
        rintro ⟨l, hl, -⟩
        cases hl
      split
      · next hk => simp [hk, hkey, hfinish]
      · next hk => simp [hfresh, ← hkey, hk, hfinish]
    · rw [if_neg hid, ← h.owned]
      split
      · exact Finset.mem_insert.trans (or_iff_right hid)
      · rfl
  · intro p hmem
    rw [hp] at hmem
    obtain ⟨l, hl, hpaid⟩ := h.paid p hmem
    refine ⟨l, ?_, hpaid⟩
    have hid : p.lockedId ≠ s.lockedBalances.next := by
      intro hid
      rw [hid, hnext] at hl
      cases hl
    rw [hlocks, Index.lookup_create, if_neg hid, hl]
  · rw [hp]
    exact h.once

theorem LockBalance.moves_doApply {op : LockBalance} {profit : ℤ} {s s' : Books} {u : Unit}
    (h : op.doApply profit s = .ok u s') : Moves 0 s s' := by
  unfold doApply at h
  rw [get_bind] at h
  obtain ⟨-, -, h⟩ := require_bind_eq_ok.mp h
  obtain ⟨-, -, h⟩ := require_bind_eq_ok.mp h
  rw [update_bind] at h
  obtain ⟨b, -, h⟩ := require_bind_eq_ok.mp h
  obtain ⟨_, s₁, hadjust, h⟩ := bind_eq_ok.mp h
  obtain ⟨t₁, rfl, hheld₁, hlockeds₁⟩ := adjustBalance_ok hadjust
  obtain ⟨-, h⟩ := assert_bind_eq_ok.mp h
  obtain ⟨_, s₂, hlock, h⟩ := bind_eq_ok.mp h
  obtain ⟨t₂, rfl, hheld₂, hlockeds₂⟩ := modifyLockeds_ok hlock
  obtain ⟨_, s₃, hpool, h⟩ := bind_eq_ok.mp h
  obtain ⟨d, hd, rfl⟩ := modifyLockData_ok hpool
  obtain ⟨dyn, -, rfl⟩ := modifyDynamicData_ok h
  have hlockeds : ∀ key, lockedsAt t₂ key =
      if key = (op.issuer, op.amount.assetId) then insert s.lockedBalances.next (lockedsAt s.balances key)
      else lockedsAt s.balances key := by
    intro key
    rw [hlockeds₂]
    change (if _ then insert _ (lockedsAt t₁ key) else lockedsAt t₁ key) = _
    rw [hlockeds₁]
  constructor
  · exact fun hinv => hinv.locked rfl rfl hlockeds rfl rfl
  · change held t₂ + lockedUp (s.lockedBalances.create _) + pooled (s.lockData.insert _ _) = _
    rw [hheld₂]
    change held t₁ + _ + _ = _
    rw [hheld₁, pooled_insert hd (-profit) (sub_eq_add_neg _ _), lockedUp, Index.total_create,
      Asset.vec_neg]
    change held s.balances + -op.amount.vec +
      (lockedUp s.lockedBalances + Asset.vec ⟨profit + op.amount.amount, op.amount.assetId⟩) + _ = _
    rw [Asset.vec_add, lockWorth]
    have hneg : Asset.vec ⟨-profit, op.amount.assetId⟩ = -Asset.vec ⟨profit, op.amount.assetId⟩ :=
      Asset.vec_neg ⟨profit, op.amount.assetId⟩
    rw [hneg]
    change _ + -op.amount.vec + (_ + (_ + op.amount.vec)) + _ = _
    abel

/-- A locked balance is finished and taken out of the set of its account, and paid. -/
theorem LockInv.unlocked {s s' : Books} {id₀ : ℕ} {key₀ : ℕ × ℕ} {l₀ : LockedBalance} {p₀ : Payout}
    (h : LockInv s) (hl₀ : s.lockedBalances.lookup id₀ = some l₀) (hopen : l₀.finish = false)
    (hkey : key₀ = (l₀.lockedBy, l₀.assetId)) (hid₀ : p₀.lockedId = id₀) (hof : p₀.Of l₀)
    (hlockeds : ∀ key, lockedsAt s'.balances key = if key = key₀
      then (lockedsAt s.balances key).erase id₀ else lockedsAt s.balances key)
    (hlocks : s'.lockedBalances = s.lockedBalances.modify id₀ fun l => { l with finish := true })
    (hp : s'.payouts = p₀ :: s.payouts) : LockInv s' := by
  have hlookup : ∀ id, s'.lockedBalances.lookup id =
      if id = id₀ then some { l₀ with finish := true } else s.lockedBalances.lookup id := by
    intro id
    rw [hlocks, Index.lookup_modify, hl₀, Option.map_some]
  have hother : ∀ p ∈ s.payouts, p.lockedId ≠ id₀ := by
    intro p hmem hid
    obtain ⟨l, hl, hfinish, -⟩ := h.paid p hmem
    rw [hid, hl₀] at hl
    cases hl
    rw [hopen] at hfinish
    cases hfinish
  refine ⟨fun key id => ?_, fun p hmem => ?_, ?_⟩
  · rw [hlockeds, hlookup]
    by_cases hid : id = id₀
    · subst hid
      rw [if_pos rfl]
      have hnot : ¬ ∃ l : LockedBalance, some { l₀ with finish := true } = some l ∧ l.finish = false ∧
          key = (l.lockedBy, l.assetId) := by
        rintro ⟨l, hl, hfinish, -⟩
        cases hl
        cases hfinish
      split
      · simp
      · next hk =>
        refine iff_of_false ?_ hnot
        rw [h.owned, hl₀]
        rintro ⟨l, hl, -, hkey'⟩
        cases hl
        exact hk (hkey'.trans hkey.symm)
    · rw [if_neg hid, ← h.owned]
      split
      · exact Finset.mem_erase.trans (and_iff_right hid)
      · rfl
  · rw [hp, List.mem_cons] at hmem
    rcases hmem with rfl | hmem
    · exact ⟨{ l₀ with finish := true }, by rw [hlookup, if_pos hid₀], rfl, hof.account, hof.amount⟩
    · obtain ⟨l, hl, hpaid⟩ := h.paid p hmem
      exact ⟨l, by rw [hlookup, if_neg (hother p hmem), hl], hpaid⟩
  · rw [hp, List.map_cons, List.nodup_cons, hid₀]
    refine ⟨fun hmem => ?_, h.once⟩
    obtain ⟨p, hmem, hid⟩ := List.mem_map.mp hmem
    exact hother p hmem hid

/-- What unlocking has paid, to whom, and what has returned to the pool. -/
theorem UnlockBalance.pay_ok {op : UnlockBalance} {expired : Bool} {item : LockedBalance}
    {payout : Payout} {s s' : Books} (h : op.pay expired item s = .ok payout s') :
    payout.lockedId = op.lockedId ∧ (op.issuer = item.lockedBy → payout.Of item) ∧
      ∃ t t', s' = { s with balances := t, lockData := t' } ∧
        held t + pooled t' = held s.balances + pooled s.lockData +
          Asset.vec ⟨item.lockedBalance, item.assetId⟩ ∧ lockedsAt t = lockedsAt s.balances := by
  unfold pay at h
  split at h
  · unfold payAll at h
    obtain ⟨_, s₁, hadjust, h⟩ := bind_eq_ok.mp h
    obtain ⟨t, rfl, hheld, hlockeds⟩ := adjustBalance_ok hadjust
    obtain ⟨rfl, rfl⟩ := pure_eq_ok.mp h
    refine ⟨rfl, fun hissuer => ⟨hissuer, .inl ⟨rfl, rfl⟩⟩, t, s.lockData, rfl, ?_, hlockeds⟩
    rw [hheld]
    abel
  · unfold payInitial at h
    obtain ⟨_, s₁, hadjust, h⟩ := bind_eq_ok.mp h
    obtain ⟨t, rfl, hheld, hlockeds⟩ := adjustBalance_ok hadjust
    obtain ⟨_, s₂, hpool, h⟩ := bind_eq_ok.mp h
    obtain ⟨d, hd, rfl⟩ := modifyLockData_ok hpool
    obtain ⟨rfl, rfl⟩ := pure_eq_ok.mp h
    refine ⟨rfl, fun hissuer => ⟨hissuer, .inr ⟨rfl, rfl⟩⟩, t, _, rfl, ?_, hlockeds⟩
    rw [hheld, pooled_insert hd (item.lockedBalance - item.initialLockBalance) rfl, Asset.vec_sub]
    abel

theorem UnlockBalance.moves_doApply {op : UnlockBalance} {s s' : Books} {u : Unit}
    (h : op.doApply s = .ok u s') : Moves 0 s s' := by
  unfold doApply at h
  rw [get_bind] at h
  obtain ⟨item, hitem, h⟩ := require_bind_eq_ok.mp h
  obtain ⟨d, -, h⟩ := require_bind_eq_ok.mp h
  obtain ⟨-, -, h⟩ := require_bind_eq_ok.mp h
  obtain ⟨hopen, h⟩ := assert_bind_eq_ok.mp h
  obtain ⟨expired, -, h⟩ := lift_bind_eq_ok.mp h
  obtain ⟨-, h⟩ := assert_bind_eq_ok.mp h
  obtain ⟨payout, s₁, hpay, h⟩ := bind_eq_ok.mp h
  obtain ⟨hid, hof, t, t', rfl, hworth, hlockeds⟩ := pay_ok hpay
  rw [update_bind, get_bind] at h
  obtain ⟨b, hb, h⟩ := require_bind_eq_ok.mp h
  obtain ⟨hmem, h⟩ := assert_bind_eq_ok.mp h
  obtain ⟨t₂, rfl, hheld₂, hlockeds₂⟩ := modifyLockeds_ok h
  constructor
  · intro hinv
    -- the locked balance is in the set of the issuer, so the issuer has locked it
    have hissuer : op.issuer = item.lockedBy := by
      have hmem' : op.lockedId ∈ lockedsAt s.balances (op.issuer, item.assetId) := by
        rw [← hlockeds, lockedsAt_of_lookup hb]
        exact hmem
      obtain ⟨l, hl, -, hkey⟩ := (hinv.owned _ _).mp hmem'
      rw [hitem] at hl
      cases hl
      exact congrArg Prod.fst hkey
    refine hinv.unlocked hitem hopen rfl hid (hof hissuer) (fun key => ?_) rfl rfl
    rw [← hissuer]
    change lockedsAt t₂ key = _
    rw [hlockeds₂]
    change (if _ then (lockedsAt t key).erase op.lockedId else lockedsAt t key) = _
    rw [hlockeds]
  · change held t₂ + lockedUp (s.lockedBalances.modify op.lockedId _) + pooled t' = _
    rw [hheld₂, lockedUp, Index.total_modify _ _ hitem, hopen]
    change held t + (lockedUp s.lockedBalances +
      (0 - Asset.vec ⟨item.lockedBalance, item.assetId⟩)) + pooled t' = _
    calc held t + (lockedUp s.lockedBalances + (0 - Asset.vec ⟨item.lockedBalance, item.assetId⟩)) +
          pooled t'
        = held t + pooled t' + lockedUp s.lockedBalances -
            Asset.vec ⟨item.lockedBalance, item.assetId⟩ := by abel
      _ = lockWorth s + 0 := by
          rw [hworth, lockWorth]
          abel

/-! ### Runs -/

/-- **One operation** that is accepted: the sum loses the fee. -/
theorem LockOperation.moves_run {S : Settings} {op : LockOperation} {s s' : Books} {u : Unit}
    (h : op.run S s = .ok u s') : Moves (-op.fee.vec) s s' := by
  rw [← zero_sub]
  cases op with
  | setLockData op =>
    rw [run] at h
    obtain ⟨_, s₀, hvalid, hrun⟩ := bind_eq_ok.mp h
    obtain ⟨⟨-, -, hnonneg, -⟩, rfl⟩ := assert_eq_ok.mp hvalid
    refine Ledger.moves_run (e := op.evaluator) rfl (fun h => op.doEvaluate_reads.of_ok h) ?_ hrun
    intro f m t t' s₁ hevaluate happly
    change op.doEvaluate s₀ = _ at hevaluate
    unfold SetLockData.doEvaluate at hevaluate
    rw [get_bind] at hevaluate
    obtain ⟨a, -, hevaluate⟩ := require_bind_eq_ok.mp hevaluate
    exact SetLockData.moves_doApply hnonneg (assert_bind_eq_ok.mp hevaluate).1 happly
  | lockBalance op =>
    rw [run] at h
    obtain ⟨_, s₀, hvalid, hrun⟩ := bind_eq_ok.mp h
    obtain ⟨-, rfl⟩ := assert_eq_ok.mp hvalid
    exact Ledger.moves_run (e := op.evaluator S) rfl (fun h => (op.doEvaluate_reads S).of_ok h)
      (fun _ happly => LockBalance.moves_doApply happly) hrun
  | unlockBalance op =>
    rw [run] at h
    obtain ⟨_, s₀, hvalid, hrun⟩ := bind_eq_ok.mp h
    obtain ⟨-, rfl⟩ := assert_eq_ok.mp hvalid
    exact Ledger.moves_run (e := op.evaluator) rfl (fun h => op.doEvaluate_reads.of_ok h)
      (fun _ happly => UnlockBalance.moves_doApply happly) hrun
  | donationBalance op =>
    rw [run] at h
    obtain ⟨_, s₀, hvalid, hrun⟩ := bind_eq_ok.mp h
    obtain ⟨-, rfl⟩ := assert_eq_ok.mp hvalid
    exact Ledger.moves_run (e := op.evaluator) rfl (fun h => op.doEvaluate_reads.of_ok h)
      (fun _ happly => DonationBalance.moves_doApply happly) hrun

/-- The fees that the accepted operations of a run have paid. -/
def lockFees (S : Settings) : Books → List (ℕ × LockOperation) → ℕ → ℤ
  | _, [] => 0
  | s, (time, op) :: ops =>
    match op.run S { s with headTime := time } with
    | .ok _ s' => op.fee.vec + lockFees S s' ops
    | .error _ _ => lockFees S { s with headTime := time } ops

theorem moves_runLockOperations (S : Settings) (ops : List (ℕ × LockOperation)) : ∀ s : Books,
    Moves (-lockFees S s ops) s (runLockOperations S s ops) := by
  induction ops with
  | nil =>
    intro s
    rw [lockFees, neg_zero]
    exact .of_eq rfl rfl rfl rfl
  | cons e ops ih =>
    intro s
    obtain ⟨time, op⟩ := e
    have htime : Moves 0 s { s with headTime := time } := .of_eq rfl rfl rfl rfl
    rw [lockFees, runLockOperations]
    cases hop : op.run S { s with headTime := time } with
    | ok u s' =>
      have hmoves := (htime.trans (LockOperation.moves_run hop)).trans (ih s')
      rw [zero_add, ← neg_add] at hmoves
      exact hmoves
    | error e s' =>
      have hmoves := htime.trans (ih { s with headTime := time })
      rw [zero_add] at hmoves
      exact hmoves

/-- Without locked balances there is nothing to own. -/
theorem lockInv_of_empty {s : Books} (hl : s.lockedBalances.table = ∅)
    (hb : ∀ key, lockedsAt s.balances key = ∅) (hp : s.payouts = []) : LockInv s where
  owned key id := by
    rw [hb, Index.lookup, hl]
    simp
  paid p hmem := by
    rw [hp] at hmem
    cases hmem
  once := by
    rw [hp]
    exact List.nodup_nil

/-- What holds of the locked balances after a run. -/
structure LocksKept (s : Books) : Prop where
  /-- An unfinished locked balance is in the set of one account, the one that locked it. -/
  owner : ∀ id l, s.lockedBalances.lookup id = some l → l.finish = false →
    id ∈ lockedsAt s.balances (l.lockedBy, l.assetId) ∧
      ∀ key, id ∈ lockedsAt s.balances key → key = (l.lockedBy, l.assetId)
  /-- No locked balance pays twice. -/
  once : (s.payouts.map Payout.lockedId).Nodup
  /-- What is paid is the balance with its interest, or the balance alone while the interest
  returns to the pool, and it is paid to the account that locked it. -/
  paid : ∀ p ∈ s.payouts, ∃ l, s.lockedBalances.lookup p.lockedId = some l ∧ p.Of l

theorem LockInv.locksKept {s : Books} (h : LockInv s) : LocksKept s where
  owner id l hl hopen := by
    refine ⟨(h.owned _ _).mpr ⟨l, hl, hopen, rfl⟩, fun key hmem => ?_⟩
    obtain ⟨l', hl', -, hkey⟩ := (h.owned _ _).mp hmem
    rw [hl] at hl'
    cases hl'
    exact hkey
  once := h.once
  paid p hmem := by
    obtain ⟨l, hl, -, hof⟩ := h.paid p hmem
    exact ⟨l, hl, hof⟩

/-- **Locked balances are conserved and paid once.** After every run, the sum of the balances, of
the unfinished locked balances and of the interest pools is what it was before, less the fees of the
accepted operations; and locked balances are kept for and paid to the account that locked them. -/
theorem locks_conserved {S : Settings} {s : Books} (hs : LockInv s)
    (ops : List (ℕ × LockOperation)) :
    (∀ assetId, lockWorth (runLockOperations S s ops) assetId + lockFees S s ops assetId =
      lockWorth s assetId) ∧ LocksKept (runLockOperations S s ops) := by
  have hmoves := moves_runLockOperations S ops s
  refine ⟨fun assetId => ?_, (hmoves.inv hs).locksKept⟩
  rw [hmoves.worth, Pi.add_apply, Pi.neg_apply]
  omega

section Example

private def lockSettings : Settings where
  isAuthorizedAsset _ _ _ := true
  calculateFee _ _ := 20
  getProfit _ _ amount _ := some (amount / 10)

/-- One account with a balance in core, for which there is an interest pool. -/
private def lockBooks : Books where
  headTime := 0
  cashbackVestingThreshold := 0
  assets := AList.singleton core
    { issuer := 1
      precision := 8
      options :=
        { maxSupply := maxShareSupply
          flags := ∅
          issuerPermissions := ∅
          marketFeePercent := 0
          maxMarketFee := 0
          coreExchangeRate := ⟨⟨1, core⟩, ⟨1, core⟩⟩
          whitelistMarkets := []
          blacklistMarkets := []
          marketFeePercent_le := Nat.zero_le _
          maxMarketFee_nonneg := Int.le_refl _ } }
  dynamicData := AList.singleton core
    { currentSupply := 3000, accumulatedFees := 0, feePool := 0, lockedBalance := 0 }
  bitassets := ∅
  lockData := AList.singleton core
    { assetId := core
      nominalInterestPerday := 1
      rewardCoefficient := 0
      interestPool := 1000
      maxPeriod := 360
      profileScalePercent := 10000
      profileReceivePercent := 10000
      canUnlockNotExpired := true }
  balances := AList.singleton (1, core) { balance := 2000 }
  statistics := AList.singleton 1 { totalCoreInOrders := 0, pendingFees := 0, pendingVestedFees := 0 }
  limitOrders := .empty
  callOrders := .empty
  settlements := .empty
  lockedBalances := .empty
  payouts := []

private theorem lockInv_lockBooks : LockInv lockBooks :=
  lockInv_of_empty rfl (fun key => by
    unfold lockedsAt lockBooks AList.singleton AList.lookup
    by_cases h : key = (1, core)
    · subst h
      rfl
    · rw [List.dlookup_cons_ne _ _ h]
      rfl) rfl

private def lockSome : ℕ × LockOperation :=
  (10, .lockBalance { fee := ⟨20, core⟩, issuer := 1, amount := ⟨100, core⟩, period := interestDay })

private def unlockEarly : ℕ × LockOperation :=
  (20, .unlockBalance { fee := ⟨20, core⟩, issuer := 1, lockedId := 0, expired := false })

/-- A balance is locked, and asked for twice before its time. -/
theorem locks_conserved_unlocked_early :
    lockWorth (runLockOperations lockSettings lockBooks [lockSome, unlockEarly, unlockEarly]) core +
        lockFees lockSettings lockBooks [lockSome, unlockEarly, unlockEarly] core = 3000 ∧
      (runLockOperations lockSettings lockBooks [lockSome, unlockEarly, unlockEarly]).payouts =
        [⟨0, 1, 100, 10⟩] :=
  ⟨(locks_conserved lockInv_lockBooks _).1 core, by decide +kernel⟩

/-- The fee of an operation is missing from the balances. -/
theorem not_locks_conserved :
    ¬ ∀ (S : Settings) (s : Books) (ops : List (ℕ × LockOperation)), LockInv s →
      ∀ assetId, lockWorth (runLockOperations S s ops) assetId = lockWorth s assetId := by
  intro hall
  have hsum := hall lockSettings lockBooks [lockSome] lockInv_lockBooks core
  exact absurd hsum (by decide +kernel)

end Example

end FinChain.Ledger
