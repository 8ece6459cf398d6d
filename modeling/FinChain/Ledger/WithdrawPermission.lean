import FinChain.Ledger.MarketPostings

/-!
# Withdrawal permissions

An account may let another one withdraw up to a limit in every period. Of the current period the
permission has the start and what was claimed of it, and nothing happens when a period ends: the start
is moved by the first claim of a later period, by as many whole periods as have passed, while what is
available is computed of the start as it still is.

Times are `fc::time_point_sec`, seconds in 32 bits. Adding to one wraps around, the difference of two is a
signed number.
-/

namespace FinChain.Ledger

open Exec

/-- `withdraw_permission_object`. The limit and the period are checked by the operations that set them,
the start is a `time_point_sec`, and only positive amounts are claimed. -/
structure WithdrawPermission where
  withdrawFromAccount : ℕ
  authorizedAccount : ℕ
  withdrawalLimit : Asset
  withdrawalPeriodSec : ℕ
  periodStartTime : ℕ
  expiration : ℕ
  claimedThisPeriod : ℤ := 0
  periodStartTime_lt : periodStartTime < 2 ^ 32
  withdrawalLimit_pos : 0 < withdrawalLimit.amount
  withdrawalPeriodSec_pos : withdrawalPeriodSec > 0
  claimedThisPeriod_nonneg : 0 ≤ claimedThisPeriod := by decide
  deriving DecidableEq

namespace WithdrawPermission

/-- `available_this_period`. -/
def availableThisPeriod (p : WithdrawPermission) (currentTime : ℕ) : Asset :=
  if timePointSec (p.periodStartTime + p.withdrawalPeriodSec) ≤ currentTime then p.withdrawalLimit
  else
    ⟨if p.claimedThisPeriod < p.withdrawalLimit.amount
      then p.withdrawalLimit.amount - p.claimedThisPeriod else 0, p.withdrawalLimit.assetId⟩

/-- The periods between the start and now. The quotient is rounded toward zero. -/
def periods (p : WithdrawPermission) (now : ℕ) : ℤ :=
  ((now : ℤ) - p.periodStartTime).tdiv p.withdrawalPeriodSec

theorem periods_of_le (p : WithdrawPermission) {now : ℕ} (h : p.periodStartTime ≤ now) :
    p.periods now = ((now - p.periodStartTime) / p.withdrawalPeriodSec : ℕ) := by
  unfold periods
  rw [← Int.natCast_sub h, ← Int.ofNat_tdiv]

/-- The change that a claim makes. -/
def claim (p : WithdrawPermission) (now : ℕ) (amount : ℤ) (h : 0 < amount) : WithdrawPermission :=
  { p with
    periodStartTime := timePointSec (p.periodStartTime + p.periods now * p.withdrawalPeriodSec)
    claimedThisPeriod := if p.periods now = 0 then p.claimedThisPeriod + amount else amount
    periodStartTime_lt := timePointSec_lt _
    claimedThisPeriod_nonneg := by
      split
      · exact add_nonneg p.claimedThisPeriod_nonneg h.le
      · exact h.le }

theorem claim_claimedThisPeriod (p : WithdrawPermission) (now : ℕ) {amount : ℤ} (h : 0 < amount) :
    (p.claim now amount h).claimedThisPeriod =
      if p.periods now = 0 then p.claimedThisPeriod + amount else amount := rfl

@[simp] theorem availableThisPeriod_assetId (p : WithdrawPermission) (now : ℕ) :
    (p.availableThisPeriod now).assetId = p.withdrawalLimit.assetId := by
  unfold availableThisPeriod
  split
  · rfl
  · rfl

end WithdrawPermission

/-- **The start is moved by whole periods**, to the last one that has begun. -/
theorem WithdrawPermission.claim_periodStartTime (p : WithdrawPermission) {now : ℕ} {amount : ℤ}
    (h : 0 < amount) (hstart : p.periodStartTime ≤ now) (hnow : now < 2 ^ 32) :
    (p.claim now amount h).periodStartTime =
      p.periodStartTime + (now - p.periodStartTime) / p.withdrawalPeriodSec * p.withdrawalPeriodSec := by
  have hperiods := p.periods_of_le hstart
  have hle := Nat.div_mul_le_self (now - p.periodStartTime) p.withdrawalPeriodSec
  change timePointSec (p.periodStartTime + p.periods now * p.withdrawalPeriodSec) = _
  rw [hperiods]
  exact_mod_cast timePointSec_of_lt (by omega)

/-- The last period that has begun. -/
theorem WithdrawPermission.mem_last_period (p : WithdrawPermission) {now : ℕ}
    (hstart : p.periodStartTime ≤ now) :
    p.periodStartTime + (now - p.periodStartTime) / p.withdrawalPeriodSec * p.withdrawalPeriodSec ≤ now ∧
      now < p.periodStartTime +
        (now - p.periodStartTime) / p.withdrawalPeriodSec * p.withdrawalPeriodSec +
          p.withdrawalPeriodSec := by
  have hle := Nat.div_mul_le_self (now - p.periodStartTime) p.withdrawalPeriodSec
  have hlt := Nat.lt_div_mul_add (a := now - p.periodStartTime) p.withdrawalPeriodSec_pos
  omega

/-! ### Evaluators -/

/-- The objects, and the permissions. -/
structure WithdrawBooks where
  books : Books
  permissions : Index WithdrawPermission

abbrev WithdrawM := EStateM LedgerError WithdrawBooks

/-- A function on the other objects. -/
def onBooks {α : Type} (x : LedgerM α) : WithdrawM α := fun s =>
  match x s.books with
  | .ok a b => .ok a { s with books := b }
  | .error e b => .error e { s with books := b }

theorem onBooks_eq_ok {α : Type} {x : LedgerM α} {s s' : WithdrawBooks} {a : α} :
    onBooks x s = .ok a s' ↔ ∃ b, x s.books = .ok a b ∧ s' = { s with books := b } := by
  unfold onBooks
  cases x s.books with
  | ok a' b => simp [eq_comm]
  | error e b => simp

theorem onBooks_bind_eq_ok {α β : Type} {x : LedgerM α} {f : α → WithdrawM β} {s s' : WithdrawBooks}
    {b : β} : (onBooks x >>= f) s = .ok b s' ↔
      ∃ a t, x s.books = .ok a t ∧ f a { s with books := t } = .ok b s' := by
  rw [bind_apply]
  unfold onBooks
  cases x s.books with
  | ok a t => simp
  | error e t => simp

/-- An operation on permissions: its fee, and its evaluator. -/
structure WithdrawEvaluator where
  feePayer : ℕ
  fee : Asset
  doEvaluate : WithdrawM Unit
  doApply : WithdrawM Unit

/-- `evaluator::evaluate` and `evaluator::apply`. -/
def WithdrawEvaluator.run (S : Settings) (skipFeeScheduleCheck : Bool) (e : WithdrawEvaluator) :
    WithdrawM Unit := do
  let prepared ← onBooks (prepareFee S e.feePayer e.fee)
  let s ← get
  assert .insufficientFee (skipFeeScheduleCheck = true ∨ S.calculateFee s.books .other ≤ prepared)
  e.doEvaluate
  onBooks (convertFee e.fee prepared)
  onBooks (payFee e.feePayer prepared)
  e.doApply
  onBooks (adjustBalance e.feePayer e.fee.neg)

theorem WithdrawEvaluator.run_eq_ok {S : Settings} {skip : Bool} {e : WithdrawEvaluator}
    {s s' : WithdrawBooks} {u : Unit} : e.run S skip s = .ok u s' ↔
    ∃ f s₁ b₂ b₃ s₄, prepareFee S e.feePayer e.fee s.books = .ok f s.books ∧
      (skip = true ∨ S.calculateFee s.books .other ≤ f) ∧ e.doEvaluate s = .ok () s₁ ∧
      convertFee e.fee f s₁.books = .ok () b₂ ∧ payFee e.feePayer f b₂ = .ok () b₃ ∧
      e.doApply { s₁ with books := b₃ } = .ok () s₄ ∧
      ∃ b, adjustBalance e.feePayer e.fee.neg s₄.books = .ok () b ∧ s' = { s₄ with books := b } := by
  unfold run
  constructor
  · intro h
    obtain ⟨f, b, hprepare, h⟩ := onBooks_bind_eq_ok.mp h
    obtain ⟨rfl, -⟩ := prepareFee_ok hprepare
    rw [get_bind, assert_bind_eq_ok] at h
    obtain ⟨hschedule, h⟩ := h
    obtain ⟨_, s₁, hevaluate, h⟩ := bind_eq_ok.mp h
    obtain ⟨_, b₂, hconvert, h⟩ := onBooks_bind_eq_ok.mp h
    obtain ⟨_, b₃, hpay, h⟩ := onBooks_bind_eq_ok.mp h
    obtain ⟨_, s₄, happly, h⟩ := bind_eq_ok.mp h
    exact ⟨f, s₁, b₂, b₃, s₄, hprepare, hschedule, hevaluate, hconvert, hpay, happly,
      onBooks_eq_ok.mp h⟩
  · rintro ⟨f, s₁, b₂, b₃, s₄, hprepare, hschedule, hevaluate, hconvert, hpay, happly, hfee⟩
    refine onBooks_bind_eq_ok.mpr ⟨f, s.books, hprepare, ?_⟩
    rw [get_bind, assert_bind_eq_ok]
    refine ⟨hschedule, bind_eq_ok.mpr ⟨(), s₁, hevaluate, ?_⟩⟩
    refine onBooks_bind_eq_ok.mpr ⟨(), b₂, hconvert, onBooks_bind_eq_ok.mpr ⟨(), b₃, hpay, ?_⟩⟩
    exact bind_eq_ok.mpr ⟨(), s₄, happly, onBooks_eq_ok.mpr hfee⟩

/-- The end of the last period. The product is one of 32-bit numbers. -/
def expirationOf (periodStartTime periodsUntilExpiration withdrawalPeriodSec : ℕ) : ℕ :=
  timePointSec (periodStartTime + timePointSec (periodsUntilExpiration * withdrawalPeriodSec))

/-- `withdraw_permission_create_operation`, with what `validate` checks. -/
structure WithdrawPermissionCreate where
  fee : Asset
  withdrawFromAccount : ℕ
  authorizedAccount : ℕ
  withdrawalLimit : Asset
  withdrawalPeriodSec : ℕ
  periodsUntilExpiration : ℕ
  periodStartTime : ℕ
  fee_nonneg : 0 ≤ fee.amount := by decide
  periodStartTime_lt : periodStartTime < 2 ^ 32 := by decide
  accounts_ne : withdrawFromAccount ≠ authorizedAccount := by decide
  withdrawalLimit_pos : 0 < withdrawalLimit.amount := by decide
  withdrawalPeriodSec_pos : 0 < withdrawalPeriodSec := by decide
  periodsUntilExpiration_pos : 0 < periodsUntilExpiration := by decide

namespace WithdrawPermissionCreate

def doEvaluate (op : WithdrawPermissionCreate) : WithdrawM Unit := do
  let s ← get
  assert .assertion ((s.books.accounts.lookup op.withdrawFromAccount).isSome = true)
  assert .assertion ((s.books.accounts.lookup op.authorizedAccount).isSome = true)
  assert .assertion ((s.books.assets.lookup op.withdrawalLimit.assetId).isSome = true)
  assert .assertion (s.books.headTime < op.periodStartTime)
  assert .assertion (s.books.headTime <
    expirationOf op.periodStartTime op.periodsUntilExpiration op.withdrawalPeriodSec)
  assert .assertion (s.books.parameters.blockInterval ≤ op.withdrawalPeriodSec)

/-- The permission that is created. -/
def permission (op : WithdrawPermissionCreate) : WithdrawPermission where
  withdrawFromAccount := op.withdrawFromAccount
  authorizedAccount := op.authorizedAccount
  withdrawalLimit := op.withdrawalLimit
  withdrawalPeriodSec := op.withdrawalPeriodSec
  expiration := expirationOf op.periodStartTime op.periodsUntilExpiration op.withdrawalPeriodSec
  periodStartTime := op.periodStartTime
  periodStartTime_lt := op.periodStartTime_lt
  withdrawalLimit_pos := op.withdrawalLimit_pos
  withdrawalPeriodSec_pos := op.withdrawalPeriodSec_pos
  claimedThisPeriod_nonneg := nothing_nonneg

def doApply (op : WithdrawPermissionCreate) : WithdrawM Unit :=
  update fun s => { s with permissions := s.permissions.create op.permission }

def evaluator (op : WithdrawPermissionCreate) : WithdrawEvaluator where
  feePayer := op.withdrawFromAccount
  fee := op.fee
  doEvaluate := op.doEvaluate
  doApply := op.doApply

end WithdrawPermissionCreate

/-- `withdraw_permission_claim_operation`, with what `validate` checks. -/
structure WithdrawPermissionClaim where
  fee : Asset
  withdrawPermission : ℕ
  withdrawFromAccount : ℕ
  withdrawToAccount : ℕ
  amountToWithdraw : Asset
  fee_nonneg : 0 ≤ fee.amount := by decide
  accounts_ne : withdrawToAccount ≠ withdrawFromAccount := by decide
  amountToWithdraw_pos : 0 < amountToWithdraw.amount := by decide

namespace WithdrawPermissionClaim

/-- `do_evaluate`. The accounts that the source calls `from` and `to` are one. -/
def doEvaluate (S : Settings) (op : WithdrawPermissionClaim) : WithdrawM Unit := do
  let s ← get
  let permit ← require .notFound (s.permissions.lookup op.withdrawPermission)
  assert .assertion (s.books.headTime < permit.expiration)
  assert .assertion (permit.authorizedAccount = op.withdrawToAccount)
  assert .assertion (permit.withdrawFromAccount = op.withdrawFromAccount)
  let available ← lift (op.amountToWithdraw.le (permit.availableThisPeriod s.books.headTime))
  assert .assertion (available = true)
  assert .assertion (op.amountToWithdraw.amount ≤
    s.books.getBalance op.withdrawFromAccount op.amountToWithdraw.assetId)
  let asset ← require .notFound (s.books.assets.lookup op.amountToWithdraw.assetId)
  assert .assertion (asset.isTransferRestricted = true →
    asset.issuer = permit.authorizedAccount ∨ asset.issuer = permit.withdrawFromAccount)
  let _ ← require .notFound (s.books.accounts.lookup op.withdrawToAccount)
  let _ ← require .notFound (s.books.accounts.lookup permit.authorizedAccount)
  assert .assertion
    (S.isAuthorizedAsset s.books permit.authorizedAccount op.amountToWithdraw.assetId = true)
  assert .assertion
    (S.isAuthorizedAsset s.books op.withdrawToAccount op.amountToWithdraw.assetId = true)

def doApply (op : WithdrawPermissionClaim) : WithdrawM Unit := do
  let s ← get
  let _ ← require .notFound (s.permissions.lookup op.withdrawPermission)
  update fun s =>
    { s with
      permissions := s.permissions.modify op.withdrawPermission fun p =>
        p.claim s.books.headTime op.amountToWithdraw.amount op.amountToWithdraw_pos }
  onBooks (adjustBalance op.withdrawFromAccount op.amountToWithdraw.neg)
  onBooks (adjustBalance op.withdrawToAccount op.amountToWithdraw)

def evaluator (S : Settings) (op : WithdrawPermissionClaim) : WithdrawEvaluator where
  feePayer := op.withdrawToAccount
  fee := op.fee
  doEvaluate := op.doEvaluate S
  doApply := op.doApply

/-- What `do_evaluate` checks of the permission and the accounts. -/
structure Permitted (S : Settings) (op : WithdrawPermissionClaim) (s : WithdrawBooks)
    (p : WithdrawPermission) : Prop where
  permission : s.permissions.lookup op.withdrawPermission = some p
  unexpired : s.books.headTime < p.expiration
  authorizedAccount : p.authorizedAccount = op.withdrawToAccount
  withdrawFromAccount : p.withdrawFromAccount = op.withdrawFromAccount
  assetId : op.amountToWithdraw.assetId = p.withdrawalLimit.assetId
  available : op.amountToWithdraw.amount ≤ (p.availableThisPeriod s.books.headTime).amount
  balance : op.amountToWithdraw.amount ≤
    s.books.getBalance op.withdrawFromAccount op.amountToWithdraw.assetId
  unrestricted : ∃ asset, s.books.assets.lookup op.amountToWithdraw.assetId = some asset ∧
    (asset.isTransferRestricted = true →
      asset.issuer = p.authorizedAccount ∨ asset.issuer = p.withdrawFromAccount)
  account : (s.books.accounts.lookup op.withdrawToAccount).isSome = true
  authorizedAsset :
    S.isAuthorizedAsset s.books op.withdrawToAccount op.amountToWithdraw.assetId = true

theorem doEvaluate_eq_ok {S : Settings} {op : WithdrawPermissionClaim} {s s' : WithdrawBooks}
    {u : Unit} : op.doEvaluate S s = .ok u s' ↔ s' = s ∧ ∃ p, op.Permitted S s p := by
  unfold doEvaluate
  simp only [get_bind, require_bind_eq_ok, assert_bind_eq_ok, lift_bind_eq_ok, assert_eq_ok]
  constructor
  · rintro ⟨p, hp, hexpiration, hto, hfrom, b, hle, rfl, hbalance, asset, hasset, hrestricted, _, ha, _,
      -, hauthorized, -, rfl⟩
    obtain ⟨hid, hamount⟩ := Asset.le_eq_ok hle
    rw [WithdrawPermission.availableThisPeriod_assetId] at hid
    rw [hto] at hauthorized
    exact ⟨rfl, p, hp, hexpiration, hto, hfrom, hid, hamount.mp rfl, hbalance, ⟨asset, hasset, hrestricted⟩,
      Option.isSome_of_eq_some ha, hauthorized⟩
  · rintro ⟨rfl, p, h⟩
    obtain ⟨asset, hasset, hrestricted⟩ := h.unrestricted
    obtain ⟨account, ha⟩ := Option.isSome_iff_exists.mp h.account
    have hauthorized := h.authorizedAsset
    have hle : op.amountToWithdraw.le (p.availableThisPeriod s'.books.headTime) = .ok true := by
      have hid : op.amountToWithdraw.assetId = (p.availableThisPeriod s'.books.headTime).assetId := by
        rw [WithdrawPermission.availableThisPeriod_assetId, h.assetId]
      rw [Asset.le_of_same hid, decide_eq_true h.available]
    refine ⟨p, h.permission, h.unexpired, h.authorizedAccount, h.withdrawFromAccount, true, hle, rfl,
      h.balance, asset, hasset, hrestricted, account, ha, account, ?_, ?_, hauthorized, rfl⟩
    · rw [h.authorizedAccount, ha]
    · rw [h.authorizedAccount, hauthorized]

theorem doApply_ok {op : WithdrawPermissionClaim} {s s' : WithdrawBooks} {u : Unit}
    (h : op.doApply s = .ok u s') : s'.books.headTime = s.books.headTime ∧
      s'.permissions = s.permissions.modify op.withdrawPermission fun p =>
        p.claim s.books.headTime op.amountToWithdraw.amount op.amountToWithdraw_pos := by
  unfold doApply at h
  rw [get_bind] at h
  obtain ⟨-, -, h⟩ := require_bind_eq_ok.mp h
  obtain ⟨_, b, hfrom, hto⟩ := onBooks_bind_eq_ok.mp (update_bind_eq_ok.mp h)
  obtain ⟨t, rfl, -⟩ := adjustBalance_ok hfrom
  obtain ⟨b', hpaid, rfl⟩ := onBooks_eq_ok.mp hto
  obtain ⟨t', rfl, -⟩ := adjustBalance_ok hpaid
  exact ⟨rfl, rfl⟩

/-- What an accepted claim has found, and what it does to the permissions. -/
theorem run_ok {S : Settings} {skip : Bool} {op : WithdrawPermissionClaim} {s s' : WithdrawBooks}
    {u : Unit} (h : (op.evaluator S).run S skip s = .ok u s') :
    (∃ p, op.Permitted S s p) ∧ s'.books.headTime = s.books.headTime ∧
      s'.permissions = s.permissions.modify op.withdrawPermission fun p =>
        p.claim s.books.headTime op.amountToWithdraw.amount op.amountToWithdraw_pos := by
  obtain ⟨f, s₁, b₂, b₃, s₄, -, -, hevaluate, hconvert, hpay, happly, hfee⟩ :=
    WithdrawEvaluator.run_eq_ok.mp h
  obtain ⟨rfl, hpermitted⟩ := doEvaluate_eq_ok.mp hevaluate
  obtain ⟨t, rfl, -⟩ := convertFee_ok hconvert
  obtain ⟨t', rfl, -⟩ := payFee_ok hpay
  obtain ⟨htime, hpermissions⟩ := doApply_ok happly
  obtain ⟨b, hdebit, rfl⟩ := hfee
  obtain ⟨t'', rfl, -⟩ := adjustBalance_ok hdebit
  exact ⟨hpermitted, htime, hpermissions⟩

end WithdrawPermissionClaim

/-! ### Runs -/

/-- What happens beside the claims of a permission, which is neither updated nor deleted by it. Time does
not go back. -/
structure BesideClaims (id : ℕ) (s s' : WithdrawBooks) : Prop where
  permission : s'.permissions.lookup id = s.permissions.lookup id
  headTime : s.books.headTime ≤ s'.books.headTime
  clock : s'.books.headTime < 2 ^ 32

/-- A claim that was tried. -/
structure Attempt where
  before : WithdrawBooks
  op : WithdrawPermissionClaim
  skip : Bool
  accepted : Bool

def Attempt.time (a : Attempt) : ℕ := a.before.books.headTime

def Attempt.amount (a : Attempt) : ℤ := a.op.amountToWithdraw.amount

/-- The runs with their claims of one permission, the last one first. A claim that is refused is undone
with the session of its transaction. -/
inductive ClaimRun (S : Settings) (id : ℕ) (s₀ : WithdrawBooks) :
    WithdrawBooks → List Attempt → Prop
  | start (hclock : s₀.books.headTime < 2 ^ 32) : ClaimRun S id s₀ s₀ []
  | beside {s s' : WithdrawBooks} {log : List Attempt} (hrun : ClaimRun S id s₀ s log)
      (hstep : BesideClaims id s s') : ClaimRun S id s₀ s' log
  | accepted {s s' : WithdrawBooks} {log : List Attempt} {op : WithdrawPermissionClaim} {skip : Bool}
      (hrun : ClaimRun S id s₀ s log) (hid : op.withdrawPermission = id)
      (hstep : (op.evaluator S).run S skip s = .ok () s') :
      ClaimRun S id s₀ s' (⟨s, op, skip, true⟩ :: log)
  | refused {s s' : WithdrawBooks} {log : List Attempt} {op : WithdrawPermissionClaim} {skip : Bool}
      {e : LedgerError} (hrun : ClaimRun S id s₀ s log) (hid : op.withdrawPermission = id)
      (hstep : (op.evaluator S).run S skip s = .error e s') :
      ClaimRun S id s₀ s (⟨s, op, skip, false⟩ :: log)

end FinChain.Ledger
