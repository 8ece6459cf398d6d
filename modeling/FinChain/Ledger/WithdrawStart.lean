import FinChain.Ledger.WithdrawLimit
import FinChain.Ledger.SettledHolders

/-!
# Claims before the start

A permission is created with a start in the future, "the time at which the first withdrawal period
begins", but nothing asks whether it has come. Before the start the whole limit is available, and a claim
then counts the periods that have passed since: none, if the start is less than a period away, and
otherwise a negative number, which moves the start to an earlier time.

What stops an early claim is one of the other checks, or nothing. `Admissible` is all of them, that is
`returns_iff`; and if no early claim is admissible, then no claim is accepted early, and the start is only
moved forward (`early_iff`).
-/

namespace FinChain.Ledger

open Exec

/-- **`adjust_balance`** returns exactly if what it takes away is there. -/
theorem adjustBalance_returns_iff {account : ℕ} {delta : Asset} {s : Books} :
    (∃ t, adjustBalance account delta s = .ok () { s with balances := t }) ↔
      (delta.amount < 0 → -delta.amount ≤ s.getBalance account delta.assetId) := by
  unfold adjustBalance
  by_cases hzero : delta.amount = 0
  · rw [if_pos hzero, hzero]
    exact ⟨fun _ hneg => absurd hneg (lt_irrefl _), fun _ => ⟨s.balances, rfl⟩⟩
  rw [if_neg hzero, get_bind]
  cases hb : s.balances.lookup (account, delta.assetId) with
  | none =>
    rw [Books.getBalance_of_none hb]
    constructor
    · rintro ⟨t, h⟩ hneg
      obtain ⟨hpos, -⟩ := assert_bind_eq_ok.mp h
      omega
    · intro h
      exact ⟨_, assert_bind_eq_ok.mpr ⟨by omega, rfl⟩⟩
  | some b =>
    rw [Books.getBalance_of_lookup hb]
    constructor
    · rintro ⟨t, h⟩
      exact (assert_bind_eq_ok.mp h).1
    · intro h
      exact ⟨_, assert_bind_eq_ok.mpr ⟨h, rfl⟩⟩

namespace WithdrawPermissionClaim

variable {S : Settings} {skip : Bool} {op : WithdrawPermissionClaim} {s : WithdrawBooks}

/-- What is checked of a claim: of its fee, of the permission and the accounts, and at last that the fee
is there, when the amount has come. That the first period has begun is not among it. -/
structure Admissible (S : Settings) (skip : Bool) (op : WithdrawPermissionClaim) (s : WithdrawBooks) :
    Prop where
  fee : ∃ f, prepareFee S op.withdrawToAccount op.fee s.books = .ok f s.books ∧
    (skip = true ∨ S.calculateFee s.books .other ≤ f)
  permitted : ∃ p, op.Permitted S s p
  payable : 0 < op.fee.amount →
    op.fee.amount ≤ s.books.getBalance op.withdrawToAccount op.fee.assetId +
      if op.fee.assetId = op.amountToWithdraw.assetId then op.amountToWithdraw.amount else 0

/-- The balance that pays the fee, when the amount has been moved. -/
theorem getBalance_moved {b b₁ b₂ : Books} (op : WithdrawPermissionClaim)
    (hfrom : adjustBalance op.withdrawFromAccount op.amountToWithdraw.neg b = .ok () b₁)
    (hto : adjustBalance op.withdrawToAccount op.amountToWithdraw b₁ = .ok () b₂) (assetId : ℕ) :
    b₂.getBalance op.withdrawToAccount assetId = b.getBalance op.withdrawToAccount assetId +
      if assetId = op.amountToWithdraw.assetId then op.amountToWithdraw.amount else 0 := by
  have hne := op.accounts_ne
  rw [adjustBalance_getBalance hto, adjustBalance_getBalance hfrom]
  congr 1
  · rw [if_neg fun heq => hne (Prod.ext_iff.mp heq).1, add_zero]
  · refine if_congr ?_ rfl rfl
    rw [Prod.mk.injEq, and_iff_right rfl]

theorem doApply_eq_ok {s s' : WithdrawBooks} {u : Unit} : op.doApply s = .ok u s' ↔
    (∃ p, s.permissions.lookup op.withdrawPermission = some p) ∧ ∃ b₁ b₂,
      adjustBalance op.withdrawFromAccount op.amountToWithdraw.neg s.books = .ok () b₁ ∧
      adjustBalance op.withdrawToAccount op.amountToWithdraw b₁ = .ok () b₂ ∧
      s' = ⟨b₂, s.permissions.modify op.withdrawPermission fun p =>
        p.claim s.books.headTime op.amountToWithdraw.amount op.amountToWithdraw_pos⟩ := by
  unfold doApply
  rw [get_bind, require_bind_eq_ok]
  simp only [update_bind_eq_ok, onBooks_bind_eq_ok, onBooks_eq_ok]
  constructor
  · rintro ⟨p, hp, _, b₁, hfrom, b₂, hto, rfl⟩
    exact ⟨⟨p, hp⟩, b₁, b₂, hfrom, hto, rfl⟩
  · rintro ⟨⟨p, hp⟩, b₁, b₂, hfrom, hto, rfl⟩
    exact ⟨p, hp, (), b₁, hfrom, b₂, hto, rfl⟩

/-- The fee is there exactly if it can be taken from the balance at last. -/
theorem payable_iff {b b₁ b₂ : Books}
    (hfrom : adjustBalance op.withdrawFromAccount op.amountToWithdraw.neg b = .ok () b₁)
    (hto : adjustBalance op.withdrawToAccount op.amountToWithdraw b₁ = .ok () b₂) :
    (∃ t, adjustBalance op.withdrawToAccount op.fee.neg b₂ = .ok () { b₂ with balances := t }) ↔
      (0 < op.fee.amount → op.fee.amount ≤ b.getBalance op.withdrawToAccount op.fee.assetId +
        if op.fee.assetId = op.amountToWithdraw.assetId then op.amountToWithdraw.amount else 0) := by
  rw [adjustBalance_returns_iff, ← op.getBalance_moved hfrom hto]
  change (-op.fee.amount < 0 → - -op.fee.amount ≤ b₂.getBalance op.withdrawToAccount op.fee.assetId) ↔ _
  rw [neg_neg, neg_lt_zero]

/-- **A claim is accepted exactly if it is admissible.** -/
theorem returns_iff :
    (∃ s', (op.evaluator S).run S skip s = .ok () s') ↔ op.Admissible S skip s := by
  constructor
  · rintro ⟨s', h⟩
    obtain ⟨f, s₁, b₂, b₃, s₄, hprepare, hschedule, hevaluate, hconvert, hpay, happly, b, hcharge, -⟩ :=
      WithdrawEvaluator.run_eq_ok.mp h
    obtain ⟨rfl, hpermitted⟩ := doEvaluate_eq_ok.mp hevaluate
    obtain ⟨t, t', rfl, -⟩ := fees_ok hconvert hpay
    obtain ⟨-, b₄, b₅, hfrom, hto, rfl⟩ := doApply_eq_ok.mp happly
    obtain ⟨t'', rfl, -⟩ := adjustBalance_ok hcharge
    exact ⟨⟨f, hprepare, hschedule⟩, hpermitted, (payable_iff hfrom hto).mp ⟨t'', hcharge⟩⟩
  · rintro ⟨⟨f, hprepare, hschedule⟩, ⟨p, hpermitted⟩, hpayable⟩
    obtain ⟨b₂, b₃, hconvert, hpay⟩ := fees_return hprepare f
    have hkept : b₃.getBalance = s.books.getBalance := by
      obtain ⟨t, t', rfl, -⟩ := fees_ok hconvert hpay
      rfl
    have hcovered : -op.amountToWithdraw.neg.amount ≤
        b₃.getBalance op.withdrawFromAccount op.amountToWithdraw.neg.assetId := by
      change - -op.amountToWithdraw.amount ≤ _
      rw [neg_neg, hkept]
      exact hpermitted.balance
    obtain ⟨b₄, hfrom⟩ : ∃ b₄, adjustBalance op.withdrawFromAccount op.amountToWithdraw.neg b₃ =
        .ok () b₄ := by
      obtain ⟨t, hfrom⟩ := adjustBalance_returns_iff.mpr fun _ => hcovered
      exact ⟨_, hfrom⟩
    obtain ⟨t, hto⟩ : ∃ t, adjustBalance op.withdrawToAccount op.amountToWithdraw b₄ =
        .ok () { b₄ with balances := t } :=
      adjustBalance_returns_iff.mpr fun hneg => absurd op.amountToWithdraw_pos hneg.le.not_gt
    rw [← hkept] at hpayable
    obtain ⟨t', hcharge⟩ := (payable_iff hfrom hto).mpr hpayable
    have happly : op.doApply { s with books := b₃ } = .ok () _ :=
      doApply_eq_ok.mpr ⟨⟨p, hpermitted.permission⟩, b₄, _, hfrom, hto, rfl⟩
    exact ⟨_, WithdrawEvaluator.run_eq_ok.mpr ⟨f, s, b₂, b₃, _, hprepare, hschedule,
      doEvaluate_eq_ok.mpr ⟨rfl, p, hpermitted⟩, hconvert, hpay, happly, _, hcharge, rfl⟩⟩

end WithdrawPermissionClaim

/-! ### Runs from the creation -/

/-- An accepted claim leaves this behind. -/
def Attempt.after (S : Settings) (a : Attempt) : WithdrawBooks :=
  final ((a.op.evaluator S).run S a.skip) a.before

/-- No claim of the log is accepted before the start, and none moves the start to an earlier time. -/
structure NotEarly (S : Settings) (id start : ℕ) (log : List Attempt) : Prop where
  started : ∀ a ∈ log, a.accepted = true → start ≤ a.time
  forward : ∀ a ∈ log, a.accepted = true → ∀ q q', a.before.permissions.lookup id = some q →
    (a.after S).permissions.lookup id = some q' → q.periodStartTime ≤ q'.periodStartTime

namespace ClaimRun

variable {S : Settings} {id : ℕ} {s₀ s : WithdrawBooks} {log : List Attempt}

/-- What is accepted in a log is admissible, and nothing else is. -/
theorem accepted_iff (hrun : ClaimRun S id s₀ s log) :
    ∀ a ∈ log, a.accepted = true ↔ a.op.Admissible S a.skip a.before := by
  induction hrun with
  | start => exact fun a ha => absurd ha List.not_mem_nil
  | beside _ _ ih => exact ih
  | @accepted s s' log op skip _ _ hstep ih =>
    intro a ha
    rcases List.mem_cons.mp ha with rfl | ha
    · exact iff_of_true rfl (WithdrawPermissionClaim.returns_iff.mp ⟨s', hstep⟩)
    · exact ih a ha
  | @refused s s' log op skip e _ _ hstep ih =>
    intro a ha
    rcases List.mem_cons.mp ha with rfl | ha
    · refine iff_of_false Bool.false_ne_true fun hadmissible => ?_
      obtain ⟨t, hok⟩ := WithdrawPermissionClaim.returns_iff.mpr hadmissible
      rw [hstep] at hok
      cases hok
    · exact ih a ha

/-- Claims that are not early: the permission is still there, and its start is where it was or has come. -/
theorem start_le_headTime {p : WithdrawPermission} (hrun : ClaimRun S id s₀ s log)
    (hp : s₀.permissions.lookup id = some p)
    (hstarted : ∀ a ∈ log, a.accepted = true → p.periodStartTime ≤ a.time) :
    ∃ q, s.permissions.lookup id = some q ∧ s.books.headTime < 2 ^ 32 ∧
      (q.periodStartTime = p.periodStartTime ∨ q.periodStartTime ≤ s.books.headTime) := by
  induction hrun with
  | start hclock => exact ⟨p, hp, hclock, .inl rfl⟩
  | beside _ hstep ih =>
    obtain ⟨q, hq, -, hstart⟩ := ih hstarted
    exact ⟨q, hstep.permission.trans hq, hstep.clock, hstart.imp_right fun hle => hle.trans hstep.headTime⟩
  | refused _ _ _ ih => exact ih fun a ha => hstarted a (List.mem_cons_of_mem _ ha)
  | @accepted s s' log op skip _ hid hstep ih =>
    obtain ⟨q, hq, hclock, hstart⟩ := ih fun a ha => hstarted a (List.mem_cons_of_mem _ ha)
    obtain ⟨-, htime, hpermissions⟩ := WithdrawPermissionClaim.run_ok hstep
    have hnow : p.periodStartTime ≤ s.books.headTime := hstarted _ List.mem_cons_self rfl
    have hle : q.periodStartTime ≤ s.books.headTime := hstart.elim (fun h => h ▸ hnow) fun h => h
    have hclaimed : s'.permissions.lookup id =
        some (q.claim s.books.headTime _ op.amountToWithdraw_pos) := by
      rw [hpermissions, hid, Index.lookup_modify, if_pos rfl, hq, Option.map_some]
    refine ⟨_, hclaimed, htime ▸ hclock, .inr ?_⟩
    rw [htime, q.claim_periodStartTime op.amountToWithdraw_pos hle hclock]
    exact (q.mem_last_period hle).1

/-- If no claim is early, the start is moved forward. -/
theorem notEarly_of_started {p : WithdrawPermission} (hrun : ClaimRun S id s₀ s log)
    (hp : s₀.permissions.lookup id = some p)
    (hstarted : ∀ a ∈ log, a.accepted = true → p.periodStartTime ≤ a.time) :
    NotEarly S id p.periodStartTime log := by
  refine ⟨hstarted, ?_⟩
  induction hrun with
  | start => exact fun a ha => absurd ha List.not_mem_nil
  | beside _ _ ih => exact ih hstarted
  | refused _ _ _ ih =>
    intro a ha haccepted
    rcases List.mem_cons.mp ha with rfl | ha
    · cases haccepted
    · exact ih (fun a ha => hstarted a (List.mem_cons_of_mem _ ha)) a ha haccepted
  | @accepted s s' log op skip hrun hid hstep ih =>
    have hbefore : ∀ a ∈ log, a.accepted = true → p.periodStartTime ≤ a.time :=
      fun a ha => hstarted a (List.mem_cons_of_mem _ ha)
    intro a ha haccepted q q' hq hq'
    rcases List.mem_cons.mp ha with rfl | ha
    · obtain ⟨q₀, hq₀, hclock, hstart⟩ := hrun.start_le_headTime hp hbefore
      obtain rfl : q₀ = q := Option.some.inj (hq₀.symm.trans hq)
      obtain ⟨-, -, hpermissions⟩ := WithdrawPermissionClaim.run_ok hstep
      have hafter : Attempt.after S ⟨s, op, skip, true⟩ = s' := final_of_ok hstep
      have hnow : p.periodStartTime ≤ s.books.headTime := hstarted _ List.mem_cons_self rfl
      have hle : q₀.periodStartTime ≤ s.books.headTime := hstart.elim (fun h => h ▸ hnow) fun h => h
      rw [hafter, hpermissions, hid, Index.lookup_modify, if_pos rfl, hq₀, Option.map_some] at hq'
      rw [← Option.some.inj hq', q₀.claim_periodStartTime op.amountToWithdraw_pos hle hclock]
      exact Nat.le_add_right _ _
    · exact ih hbefore a ha haccepted q q' hq hq'

end ClaimRun

theorem WithdrawPermissionCreate.run_ok {S : Settings} {skip : Bool} {op : WithdrawPermissionCreate}
    {s s' : WithdrawBooks} {u : Unit} (h : op.evaluator.run S skip s = .ok u s') :
    s'.permissions = s.permissions.create op.permission := by
  obtain ⟨f, s₁, b₂, b₃, s₄, -, -, hevaluate, -, -, happly, b, -, rfl⟩ :=
    WithdrawEvaluator.run_eq_ok.mp h
  have hread : s₁ = s := by
    unfold evaluator doEvaluate at hevaluate
    simp only [get_bind, assert_bind_eq_ok, assert_eq_ok] at hevaluate
    exact hevaluate.2.2.2.2.2.2
  change op.doApply _ = _ at happly
  unfold doApply at happly
  rw [update_eq_ok.mp happly, hread]

/-- **No claim is accepted before the start, and none moves it back, exactly if every claim that is made
too early is stopped by one of the other checks.** -/
theorem WithdrawPermissionCreate.notEarly_iff {S : Settings} {skip : Bool}
    {op : WithdrawPermissionCreate} {s₀ s₁ s : WithdrawBooks} {log : List Attempt}
    (hcreate : op.evaluator.run S skip s₀ = .ok () s₁)
    (hrun : ClaimRun S s₀.permissions.next s₁ s log) :
    NotEarly S s₀.permissions.next op.periodStartTime log ↔
      ∀ a ∈ log, a.time < op.periodStartTime → ¬ a.op.Admissible S a.skip a.before := by
  constructor
  · intro h a ha hearly hadmissible
    exact absurd (h.started a ha ((hrun.accepted_iff a ha).mpr hadmissible)) (not_le.mpr hearly)
  · intro h
    have hp : s₁.permissions.lookup s₀.permissions.next = some op.permission := by
      rw [run_ok hcreate, Index.lookup_create, if_pos rfl]
    refine hrun.notEarly_of_started hp ?_
    intro a ha haccepted
    exact not_lt.mp fun hearly => h a ha hearly ((hrun.accepted_iff a ha).mp haccepted)

/-- The small chain when the permission is made. -/
def smallCreated (start : ℕ) (hstart : start < 2 ^ 32) : WithdrawBooks :=
  final ((smallPermission start 3600 hstart (by decide)).evaluator.run smallSettings false)
    ⟨smallChain, .empty⟩

theorem run_smallCreated {start : ℕ} {hstart : start < 2 ^ 32}
    (h : (((smallPermission start 3600 hstart (by decide)).evaluator.run smallSettings false).run'
      ⟨smallChain, .empty⟩) = some ()) :
    (smallPermission start 3600 hstart (by decide)).evaluator.run smallSettings false
      ⟨smallChain, .empty⟩ = .ok () (smallCreated start hstart) :=
  ok_final_of_run' h

/-- A claim when the first period has begun. -/
theorem notEarly_in_period : NotEarly smallSettings 0 1500000100
    [((smallCreated 1500000100 (by decide)).atTime 1500000200).attempt 60 (by decide)] := by
  have hrun : ClaimRun smallSettings 0 (smallCreated 1500000100 (by decide)) _ _ :=
    ((ClaimRun.start (by decide +kernel)).beside (.atTime (by decide +kernel)
      (by decide : 1500000200 < 2 ^ 32))).claimed (by decide : (0 : ℤ) < 60) (by decide +kernel)
  refine (WithdrawPermissionCreate.notEarly_iff (run_smallCreated (by decide +kernel)) hrun).mpr ?_
  intro a ha hearly
  cases List.mem_singleton.mp ha
  exact absurd hearly (by decide)

/-- A claim in the block after the creation, when the start is almost three periods away. It moves the
start by two of them. -/
theorem not_notEarly : ¬ ∀ {S : Settings} {skip : Bool} {op : WithdrawPermissionCreate}
    {s₀ s₁ s : WithdrawBooks} {log : List Attempt}, op.evaluator.run S skip s₀ = .ok () s₁ →
    ClaimRun S s₀.permissions.next s₁ s log →
    NotEarly S s₀.permissions.next op.periodStartTime log := by
  intro hall
  have hrun : ClaimRun smallSettings 0 (smallCreated 1500010000 (by decide)) _ _ :=
    (ClaimRun.start (by decide +kernel)).claimed (by decide : (0 : ℤ) < 60) (by decide +kernel)
  have hstarted := (hall (run_smallCreated (by decide +kernel)) hrun).started _ List.mem_cons_self rfl
  revert hstarted
  decide +kernel

end FinChain.Ledger
