import FinChain.Chain.Reopened
import FinChain.Ledger.Unlocking

/-!
# Locked balances after a restart

What a restart does to a locked balance (`LockedBalance.restored`) and what it means for the operations
that follow. An account finds its locked balance in the set of the asset it was locked in, and that set is
still there. But the locked balance itself is now taken for one of the core asset, and is looked for in the
set of that one. So of the locked balances that an account has, a node that was restarted lets it unlock
those of the core asset only (`core_of_accepted_reopened`). Nodes that were not restarted still accept the
others.
-/

namespace FinChain.Ledger

open Exec Chain

/-- The members of a locked balance, as numbers. All are locked by their users. -/
def LockedBalance.toObject (l : LockedBalance) : Object ℤ .lockedBalanceObject := fun m =>
  match m.1 with
  | .initialLockBalance => l.initialLockBalance
  | .lockedBalance => l.lockedBalance
  | .lockTime => l.lockTime
  | .lockPeriod => l.lockPeriod
  | .lockType => 1
  | .assetId => l.assetId
  | .finish => if l.finish then 1 else 0
  | _ => 0

/-- The locked balance after a restart. -/
def LockedBalance.restored (l : LockedBalance) : LockedBalance :=
  { l with assetId := core, finish := false }

/-- This is what packing and unpacking does. -/
theorem LockedBalance.toObject_restored (l : LockedBalance) :
    l.restored.toObject = restore (fun _ => 0) l.toObject := by
  funext ⟨m, hm⟩
  have hcases := hm
  simp only [members, List.mem_cons, List.not_mem_nil, or_false] at hcases
  rcases hcases with rfl | rfl | rfl | rfl | rfl | rfl | rfl <;> rfl

/-- The objects of a node that was restarted. -/
structure Reopened (s s' : Books) : Prop where
  lookup : ∀ id, s'.lockedBalances.lookup id = (s.lockedBalances.lookup id).map LockedBalance.restored
  others : ∃ x, s' = { s with lockedBalances := x }

/-- What is unlocked is in the set of the account, for the asset that it is taken to be of. -/
theorem UnlockBalance.mem_lockedsAt_of_ok {op : UnlockBalance} {s s' : Books} {u : Unit}
    (h : op.doApply s = .ok u s') : ∃ item, s.lockedBalances.lookup op.lockedId = some item ∧
      op.lockedId ∈ lockedsAt s.balances (op.issuer, item.assetId) := by
  unfold doApply at h
  rw [get_bind] at h
  obtain ⟨item, hitem, h⟩ := require_bind_eq_ok.mp h
  obtain ⟨d, -, h⟩ := require_bind_eq_ok.mp h
  obtain ⟨-, -, h⟩ := require_bind_eq_ok.mp h
  obtain ⟨-, h⟩ := assert_bind_eq_ok.mp h
  obtain ⟨expired, -, h⟩ := lift_bind_eq_ok.mp h
  obtain ⟨-, h⟩ := assert_bind_eq_ok.mp h
  obtain ⟨payout, s₁, hpay, h⟩ := bind_eq_ok.mp h
  obtain ⟨-, -, t, t', rfl, -, hlockeds⟩ := pay_ok hpay
  rw [update_bind, get_bind] at h
  obtain ⟨b, hb, h⟩ := require_bind_eq_ok.mp h
  obtain ⟨hmem, -⟩ := assert_bind_eq_ok.mp h
  refine ⟨item, hitem, ?_⟩
  rw [← hlockeds, lockedsAt_of_lookup hb]
  exact hmem

/-- **After a restart only the core asset can be unlocked.** -/
theorem UnlockBalance.core_of_accepted_reopened {op : UnlockBalance} {s s' s'' : Books} {u : Unit}
    (hinv : LockInv s) (hreopened : Reopened s s') (h : op.doApply s' = .ok u s'') :
    ∃ l, s.lockedBalances.lookup op.lockedId = some l ∧ l.finish = false ∧ l.assetId = core ∧
      op.issuer = l.lockedBy := by
  obtain ⟨item, hitem, hmem⟩ := mem_lockedsAt_of_ok h
  obtain ⟨x, rfl⟩ := hreopened.others
  rw [hreopened.lookup] at hitem
  obtain ⟨l, hl, rfl⟩ := Option.map_eq_some_iff.mp hitem
  -- the set is still the one of the asset that was locked
  obtain ⟨l', hl', hfinish, hkey⟩ := (hinv.owned _ _).mp hmem
  obtain rfl : l' = l := Option.some.inj (hl'.symm.trans hl)
  obtain ⟨hissuer, hasset⟩ := Prod.mk.injEq _ _ _ _ ▸ hkey
  exact ⟨l', hl, hfinish, hasset.symm, hissuer⟩

section Example

/-- Unfinished locked balances of the core asset are found again as they were. -/
private theorem reopened_of_restored {s : Books}
    (h : ∀ e ∈ s.lockedBalances.table.entries, e.2.restored = e.2) : Reopened s s := by
  refine ⟨fun id => ?_, s.lockedBalances, rfl⟩
  cases hl : s.lockedBalances.lookup id with
  | none => rfl
  | some l => exact congrArg some (h ⟨id, l⟩ (AList.mem_lookup_iff.mp hl)).symm

end Example

end FinChain.Ledger
