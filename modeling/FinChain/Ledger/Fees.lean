import FinChain.Ledger.Events

/-!
# Where the fees go

An operation is evaluated and applied in steps that hand its fee on: `prepare_fee` finds what it is
worth in core, `convert_fee` takes this core out of the fee pool of another asset, `pay_fee` credits it,
and when all is done the fee itself is taken from the balance of the payer. In between `core_fee_paid`
is a member of the evaluator, and the evaluators differ in what they do with it:

* most of them leave it alone, and `pay_fee` is that of `generic_evaluator`;
* the evaluators of blind transfers credit an FBA accumulator instead, if it is configured;
* a limit order keeps the fee as its `deferred_fee`, which `do_apply` writes, not `pay_fee`;
* the evaluator of new assets takes half of the fee away in `do_evaluate`. Half is credited by
  `pay_fee`, and half is the first fee pool of the asset.

`Registered` is any of them, and `Registered.Run` is an accepted run with the objects between its steps,
so that what leaves the payer or the pool (`Run.left`) and what reaches a fee sink (`Run.credited`) are
read off the steps that move it. They are the same but for new assets: the half that is taken away
is rounded down, so the other half counts twice in an odd fee, and of a fee in another asset only one
half is taken out of the pool at all.
-/

namespace FinChain.Ledger

open Exec

/-! ### Fee sinks -/

/-- The fees of an account that wait for the next maintenance. -/
def Books.pendingOf (s : Books) (account : ℕ) : ℤ :=
  ((s.statistics.lookup account).map fun a => a.pendingFees + a.pendingVestedFees).getD 0

/-- The fees in the FBA accumulators. -/
def Books.fbaFees (s : Books) : ℤ := s.fbas.total fun _ fba => fba.accumulatedFbaFees

/-- The fees that limit orders keep. -/
def Books.deferredFees (s : Books) : ℤ := s.limitOrders.total fun _ o => o.deferredFee

/-- The core in all fee pools. -/
def Books.feePools (s : Books) : ℤ := s.dynamicData.total fun _ d => d.feePool

/-- All that a fee of the account can be credited to. -/
def Books.feeSinks (s : Books) (account : ℕ) : ℤ :=
  s.pendingOf account + s.fbaFees + s.deferredFees + s.feePools

/-- The fee pool of an asset. -/
def Books.feePoolOf (s : Books) (assetId : ℕ) : ℤ :=
  ((s.dynamicData.lookup assetId).map AssetDynamicData.feePool).getD 0

/-- The fees that an asset has accumulated. -/
def Books.accumulatedFeesOf (s : Books) (assetId : ℕ) : ℤ :=
  ((s.dynamicData.lookup assetId).map AssetDynamicData.accumulatedFees).getD 0

/-! ### Evaluators -/

/-- `HARDFORK_563_TIME`. -/
def hardfork563Time : ℕ := 1456250400

/-- `generic_evaluator::pay_fba_fee`. -/
def payFbaFee (S : Settings) (account fbaId : ℕ) (coreFeePaid : ℤ) : LedgerM Unit := do
  let s ← get
  let fba ← require .notFound (s.fbas.lookup fbaId)
  if S.fbaIsConfigured s fbaId = false then payFee account coreFeePaid
  else update fun s =>
    { s with
      fbas := s.fbas.insert fbaId
        { fba with accumulatedFbaFees := fba.accumulatedFbaFees + coreFeePaid } }

/-- The `pay_fee` of an evaluator with an FBA accumulator. -/
def payFeeInto (fbaId : ℕ) (S : Settings) (account : ℕ) (coreFeePaid : ℤ) : LedgerM Unit := do
  let s ← get
  if hardfork563Time ≤ s.headTime then payFbaFee S account fbaId coreFeePaid
  else payFee account coreFeePaid

/-- `transfer_to_blind_evaluator::pay_fee`. -/
def TransferToBlind.payFee : Settings → ℕ → ℤ → LedgerM Unit := payFeeInto 0

/-- `blind_transfer_evaluator::pay_fee`. -/
def BlindTransfer.payFee : Settings → ℕ → ℤ → LedgerM Unit := payFeeInto 1

/-- `transfer_from_blind_evaluator::pay_fee`. -/
def TransferFromBlind.payFee : Settings → ℕ → ℤ → LedgerM Unit := payFeeInto 2

/-- An evaluator that leaves the fee to `generic_evaluator`, and neither changes nor reads
`core_fee_paid`. -/
structure PlainEvaluator (ρ : Type) extends Evaluator ρ where
  coreFeePaid_eq : coreFeePaid = id
  payFee_eq : payFee = Ledger.payFee feePayer
  doApply_eq : ∀ f g, doApply f = doApply g

/-- The evaluators, told apart by what they do with `core_fee_paid`. Of blind transfers it is what they
have besides `pay_fee`. -/
inductive Registered : Type → Type 1
  | plain {ρ : Type} (e : PlainEvaluator ρ) : Registered ρ
  | transferToBlind {ρ : Type} (e : PlainEvaluator ρ) : Registered ρ
  | blindTransfer {ρ : Type} (e : PlainEvaluator ρ) : Registered ρ
  | transferFromBlind {ρ : Type} (e : PlainEvaluator ρ) : Registered ρ
  | limitOrderCreate (op : LimitOrderCreate) : Registered Unit
  | assetCreate (op : AssetCreate) : Registered Unit

namespace Registered

variable {ρ : Type} {S : Settings} {skip : Bool} {s s' : Books}

def evaluator (S : Settings) : Registered ρ → Evaluator ρ
  | plain e => e.toEvaluator
  | transferToBlind e => { e.toEvaluator with payFee := TransferToBlind.payFee S e.feePayer }
  | blindTransfer e => { e.toEvaluator with payFee := BlindTransfer.payFee S e.feePayer }
  | transferFromBlind e => { e.toEvaluator with payFee := TransferFromBlind.payFee S e.feePayer }
  | limitOrderCreate op => op.evaluator S
  | assetCreate op => op.evaluator S

/-- `fee_payer()`. -/
def feePayer : Registered ρ → ℕ
  | plain e | transferToBlind e | blindTransfer e | transferFromBlind e => e.feePayer
  | limitOrderCreate op => op.seller
  | assetCreate op => op.issuer

def fee : Registered ρ → Asset
  | plain e | transferToBlind e | blindTransfer e | transferFromBlind e => e.fee
  | limitOrderCreate op => op.fee
  | assetCreate op => op.fee

/-- What `do_evaluate` makes of `core_fee_paid`. -/
def coreFeePaid : Registered ρ → ℤ → ℤ
  | assetCreate _, f => f - f / 2
  | _, f => f

/-- How often `core_fee_paid` is credited. -/
def shares : Registered ρ → ℤ
  | assetCreate _ => 2
  | _ => 1

/-! `do_apply` is cut around the statement that reads `core_fee_paid`. -/

/-- What `do_apply` does before. -/
def before : Registered ρ → LedgerM Unit
  | limitOrderCreate op => do
    modifyStatistics op.seller (LimitOrderCreate.intoOrders op.amountToSell)
    adjustBalance op.seller op.amountToSell.neg
  | _ => pure ()

/-- The object is created that keeps the fee, or some of it. Its id is returned. -/
def deposit : Registered ρ → ℤ → LedgerM ℕ
  | limitOrderCreate op, f => op.createOrder f
  | assetCreate op, f => do
    let s ← get
    op.doApply f
    return s.nextAssetId
  | _, _ => pure 0

/-- The rest of `do_apply`. -/
def after : Registered ρ → ρ → ℕ → LedgerM Unit
  | plain e, m, _ | transferToBlind e, m, _ | blindTransfer e, m, _ | transferFromBlind e, m, _ =>
    e.doApply 0 m
  | limitOrderCreate op, _, orderId => do
    let filled ← applyOrder orderId true
    assert .assertion (op.fillOrKill = true → filled = true)
  | assetCreate _, _, _ => pure ()

@[simp] theorem feePayer_evaluator (x : Registered ρ) : (x.evaluator S).feePayer = x.feePayer := by
  cases x <;> rfl

@[simp] theorem fee_evaluator (x : Registered ρ) : (x.evaluator S).fee = x.fee := by
  cases x <;> rfl

@[simp] theorem coreFeePaid_evaluator (x : Registered ρ) :
    (x.evaluator S).coreFeePaid = x.coreFeePaid := by
  cases x with
  | plain e | transferToBlind e | blindTransfer e | transferFromBlind e => exact e.coreFeePaid_eq
  | limitOrderCreate op => rfl
  | assetCreate op => rfl

theorem doApply_evaluator (x : Registered ρ) (f : ℤ) (m : ρ) :
    (x.evaluator S).doApply f m = (do x.before; let id ← x.deposit f; x.after m id) := by
  cases x with
  | plain e | transferToBlind e | blindTransfer e | transferFromBlind e =>
    exact congrFun (e.doApply_eq f 0) m
  | limitOrderCreate op => exact (bind_assoc _ _ _).symm
  | assetCreate op => rfl

/-! ### Runs -/

/-- An accepted operation, with the objects between the steps that move its fee. -/
structure Run (x : Registered ρ) (S : Settings) (skip : Bool) (s s' : Books) where
  prepared : ℤ
  members : ρ
  held : ℕ
  (evaluated converted paid begun deposited applied : Books)
  prepare : prepareFee S x.feePayer x.fee s = .ok prepared s
  sufficient : skip = true ∨ S.calculateFee s (x.evaluator S).kind ≤ prepared
  evaluate : (x.evaluator S).doEvaluate s = .ok members evaluated
  convert : convertFee x.fee (x.coreFeePaid prepared) evaluated = .ok () converted
  pay : (x.evaluator S).payFee (x.coreFeePaid prepared) converted = .ok () paid
  begins : x.before paid = .ok () begun
  deposits : x.deposit (x.coreFeePaid prepared) begun = .ok held deposited
  finishes : x.after members held deposited = .ok () applied
  debit : adjustBalance x.feePayer x.fee.neg applied = .ok () s'

/-- **The runs are the accepted operations.** -/
theorem nonempty_run_iff {x : Registered ρ} :
    Nonempty (x.Run S skip s s') ↔ (x.evaluator S).run S skip s = .ok () s' := by
  rw [Evaluator.run_eq_ok]
  simp only [feePayer_evaluator, fee_evaluator, coreFeePaid_evaluator, doApply_evaluator]
  constructor
  · rintro ⟨r⟩
    refine ⟨_, _, _, _, _, _, r.prepare, r.sufficient, r.evaluate, r.convert, r.pay, ?_, r.debit⟩
    exact bind_eq_ok.mpr ⟨(), _, r.begins, bind_eq_ok.mpr ⟨_, _, r.deposits, r.finishes⟩⟩
  · rintro ⟨f, m, s₁, s₂, s₃, s₄, hprepare, hfee, hevaluate, hconvert, hpay, happly, hdebit⟩
    obtain ⟨_, t, hbegin, happly⟩ := bind_eq_ok.mp happly
    obtain ⟨id, t', hdeposit, hfinish⟩ := bind_eq_ok.mp happly
    exact ⟨⟨f, m, id, s₁, s₂, s₃, t, t', s₄, hprepare, hfee, hevaluate, hconvert, hpay, hbegin,
      hdeposit, hfinish, hdebit⟩⟩

namespace Run

variable {x : Registered ρ}

/-- The core that leaves the fee pool of the fee's asset, and the payer's balance. -/
def left (r : x.Run S skip s s') : ℤ :=
  r.evaluated.feePoolOf x.fee.assetId - r.converted.feePoolOf x.fee.assetId +
    (r.applied.getBalance x.feePayer core - s'.getBalance x.feePayer core)

/-- The core that is credited, by `pay_fee` and by `do_apply`. -/
def credited (r : x.Run S skip s s') : ℤ :=
  r.paid.feeSinks x.feePayer - r.converted.feeSinks x.feePayer +
    (r.deposited.feeSinks x.feePayer - r.begun.feeSinks x.feePayer)

/-- **The fee is conserved.** What leaves is credited, and a fee in another asset than core goes to the
accumulated fees of the asset. -/
structure Conserves (r : x.Run S skip s s') : Prop where
  credited_eq : r.left = r.credited
  accumulated : x.fee.assetId ≠ core →
    r.applied.getBalance x.feePayer x.fee.assetId - s'.getBalance x.feePayer x.fee.assetId =
        x.fee.amount ∧
      r.converted.accumulatedFeesOf x.fee.assetId - r.evaluated.accumulatedFeesOf x.fee.assetId =
        x.fee.amount

/-! ### What leaves -/

/-- The fee in core is what the fee is worth. -/
theorem prepared_spec (r : x.Run S skip s s') : 0 ≤ r.prepared ∧
    (x.fee.assetId = core → r.prepared = x.fee.amount) ∧
    (x.fee.assetId ≠ core → ∃ a c, s.assets.lookup x.fee.assetId = some a ∧
      x.fee.mul a.options.coreExchangeRate = .ok c ∧ r.prepared = c.amount) := by
  have hprepare := r.prepare
  obtain ⟨-, -, hnonneg, hcore, -⟩ := prepareFee_ok hprepare
  refine ⟨hnonneg, hcore, fun hid => ?_⟩
  unfold prepareFee at hprepare
  rw [get_bind, assert_bind_eq_ok] at hprepare
  obtain ⟨-, h⟩ := hprepare
  obtain ⟨_, -, h⟩ := require_bind_eq_ok.mp h
  obtain ⟨a, ha, h⟩ := require_bind_eq_ok.mp h
  obtain ⟨_, -, h⟩ := require_bind_eq_ok.mp h
  obtain ⟨-, h⟩ := assert_bind_eq_ok.mp h
  rw [if_neg hid] at h
  obtain ⟨c, hc, h⟩ := lift_bind_eq_ok.mp h
  obtain ⟨-, h⟩ := assert_bind_eq_ok.mp h
  obtain ⟨-, h⟩ := assert_bind_eq_ok.mp h
  exact ⟨a, c, ha, hc, (pure_eq_ok.mp h).1.symm⟩

theorem balance_eq (r : x.Run S skip s s') (assetId : ℕ) :
    r.applied.getBalance x.feePayer assetId - s'.getBalance x.feePayer assetId =
      if x.fee.assetId = assetId then x.fee.amount else 0 := by
  rw [adjustBalance_getBalance r.debit]
  by_cases hid : x.fee.assetId = assetId
  · have hkey : (x.feePayer, assetId) = (x.feePayer, x.fee.neg.assetId) := by
      rw [← hid]
      rfl
    rw [if_pos hkey, if_pos hid]
    change _ - (_ + -x.fee.amount) = _
    ring
  · have hkey : (x.feePayer, assetId) ≠ (x.feePayer, x.fee.neg.assetId) := fun h =>
      hid (congrArg Prod.snd h).symm
    rw [if_neg hkey, if_neg hid, add_zero, sub_self]

/-- **`convert_fee`** moves the fee against the core that it is worth. -/
theorem convert_spec (r : x.Run S skip s s') (hid : x.fee.assetId ≠ core) :
    r.converted.feePoolOf x.fee.assetId =
        r.evaluated.feePoolOf x.fee.assetId - x.coreFeePaid r.prepared ∧
      r.converted.accumulatedFeesOf x.fee.assetId =
        r.evaluated.accumulatedFeesOf x.fee.assetId + x.fee.amount := by
  have hconvert := r.convert
  unfold convertFee at hconvert
  rw [if_neg hid] at hconvert
  obtain ⟨d, hd, hconverted⟩ := modifyDynamicData_ok hconvert
  unfold Books.feePoolOf Books.accumulatedFeesOf
  rw [hconverted, hd, AList.lookup_insert]
  exact ⟨rfl, rfl⟩

/-- **What leaves** is the fee itself or, from the pool, what is left of the core it is worth. -/
theorem left_eq (r : x.Run S skip s s') :
    r.left = if x.fee.assetId = core then x.fee.amount else x.coreFeePaid r.prepared := by
  unfold left
  rw [r.balance_eq core]
  by_cases hid : x.fee.assetId = core
  · have hconvert := r.convert
    unfold convertFee at hconvert
    rw [if_pos hid] at hconvert
    obtain ⟨-, hsame⟩ := pure_eq_ok.mp hconvert
    rw [if_pos hid, if_pos hid, ← hsame, sub_self, zero_add]
  · rw [if_neg hid, if_neg hid, (r.convert_spec hid).1]
    ring

/-! ### What is credited -/

theorem feeSinks_payFee {account : ℕ} {f : ℤ} {u : Unit} (h : payFee account f s = .ok u s') :
    s'.feeSinks account = s.feeSinks account + f := by
  unfold payFee at h
  rw [get_bind] at h
  obtain ⟨a, ha, rfl⟩ := modifyStatistics_ok h
  have hpending : Books.pendingOf
      { s with
        statistics := s.statistics.insert account (a.payFee s.cashbackVestingThreshold f) } account =
      s.pendingOf account + f := by
    unfold Books.pendingOf
    rw [AList.lookup_insert, ha, Option.map_some, Option.map_some, Option.getD_some, Option.getD_some]
    unfold AccountStatistics.payFee
    split
    · change a.pendingFees + f + a.pendingVestedFees = _
      ring
    · change a.pendingFees + (a.pendingVestedFees + f) = _
      ring
  change Books.pendingOf _ account + s.fbaFees + s.deferredFees + s.feePools = _
  rw [hpending]
  unfold Books.feeSinks
  ring

theorem feeSinks_payFeeInto {fbaId account : ℕ} {f : ℤ} {u : Unit}
    (h : payFeeInto fbaId S account f s = .ok u s') :
    s'.feeSinks account = s.feeSinks account + f := by
  unfold payFeeInto at h
  rw [get_bind] at h
  split at h
  · unfold payFbaFee at h
    rw [get_bind] at h
    obtain ⟨fba, hfba, h⟩ := require_bind_eq_ok.mp h
    split at h
    · exact feeSinks_payFee h
    · obtain rfl := update_eq_ok.mp h
      have hfees : Books.fbaFees
          { s with
            fbas := s.fbas.insert fbaId
              { fba with accumulatedFbaFees := fba.accumulatedFbaFees + f } } = s.fbaFees + f := by
        unfold Books.fbaFees
        rw [Table.total_insert_of_lookup _ _ hfba]
        ring
      change s.pendingOf account + Books.fbaFees _ + s.deferredFees + s.feePools = _
      rw [hfees]
      unfold Books.feeSinks
      ring
  · exact feeSinks_payFee h

theorem feeSinks_createOrder {op : LimitOrderCreate} {f : ℤ} {orderId : ℕ} (hf : 0 ≤ f)
    (h : op.createOrder f s = .ok orderId s') (account : ℕ) : s'.feeSinks account =
      s.feeSinks account + if s.headTime ≤ hardfork445Time then 0 else f := by
  unfold LimitOrderCreate.createOrder at h
  rw [get_bind] at h
  obtain ⟨price, -, h⟩ := lift_bind_eq_ok.mp h
  obtain ⟨_, _, hupdate, h⟩ := bind_eq_ok.mp h
  obtain ⟨-, hs'⟩ := pure_eq_ok.mp h
  rw [update_eq_ok.mp hupdate] at hs'
  have hdeferred : s'.deferredFees =
      s.deferredFees + if s.headTime ≤ hardfork445Time then 0 else f := by
    rw [← hs']
    unfold Books.deferredFees
    rw [Index.total_create]
    split
    · rfl
    · rw [Int.toNat_of_nonneg hf]
  have hrest : s'.pendingOf account = s.pendingOf account ∧ s'.fbaFees = s.fbaFees ∧
      s'.feePools = s.feePools := by
    rw [← hs']
    exact ⟨rfl, rfl, rfl⟩
  unfold Books.feeSinks
  rw [hdeferred, hrest.1, hrest.2.1, hrest.2.2]
  ring

theorem feeSinks_createAsset {op : AssetCreate} {f : ℤ} {u : Unit} (h : op.doApply f s = .ok u s')
    (account : ℕ) : s'.feeSinks account = s.feeSinks account + f := by
  have hs' := update_eq_ok.mp h
  have hpools : s'.feePools = s.feePools + f := by
    rw [hs']
    unfold Books.feePools
    rw [Table.total_insert_of_none _ _ s.lookup_nextAssetId.2.1]
  have hrest : s'.pendingOf account = s.pendingOf account ∧ s'.fbaFees = s.fbaFees ∧
      s'.deferredFees = s.deferredFees := by
    rw [hs']
    exact ⟨rfl, rfl, rfl⟩
  unfold Books.feeSinks
  rw [hpools, hrest.1, hrest.2.1, hrest.2.2]
  ring

theorem credited_of (r : x.Run S skip s s') {p d : ℤ}
    (hpaid : r.paid.feeSinks x.feePayer = r.converted.feeSinks x.feePayer + p)
    (hdeposited : r.deposited.feeSinks x.feePayer = r.begun.feeSinks x.feePayer + d) :
    r.credited = p + d := by
  unfold credited
  rw [hpaid, hdeposited]
  ring

/-- **What is credited** is `core_fee_paid`, once or twice. -/
theorem credited_eq (r : x.Run S skip s s') : r.credited = x.shares * x.coreFeePaid r.prepared := by
  have hpay := r.pay
  have hdeposit := r.deposits
  -- an evaluator whose `do_apply` keeps nothing of the fee
  have hnothing : (x.deposit (x.coreFeePaid r.prepared) r.begun = .ok 0 r.begun) →
      r.deposited.feeSinks x.feePayer = r.begun.feeSinks x.feePayer + 0 := by
    intro h
    rw [h] at hdeposit
    obtain ⟨-, hsame⟩ := EStateM.Result.ok.inj hdeposit
    rw [hsame, add_zero]
  cases x with
  | plain e =>
    have hgeneric : payFee e.feePayer r.prepared r.converted = .ok () r.paid := e.payFee_eq ▸ hpay
    rw [r.credited_of (feeSinks_payFee hgeneric) (hnothing rfl), add_zero]
    exact (one_mul _).symm
  | transferToBlind e =>
    rw [r.credited_of (feeSinks_payFeeInto hpay) (hnothing rfl), add_zero]
    exact (one_mul _).symm
  | blindTransfer e =>
    rw [r.credited_of (feeSinks_payFeeInto hpay) (hnothing rfl), add_zero]
    exact (one_mul _).symm
  | transferFromBlind e =>
    rw [r.credited_of (feeSinks_payFeeInto hpay) (hnothing rfl), add_zero]
    exact (one_mul _).symm
  | limitOrderCreate op =>
    have hnonneg := r.prepared_spec.1
    have hbegin := r.begins
    obtain ⟨_, t, hstatistics, hbalance⟩ := bind_eq_ok.mp hbegin
    obtain ⟨_, -, ht⟩ := modifyStatistics_ok hstatistics
    obtain ⟨_, hbegun, -⟩ := adjustBalance_ok hbalance
    have htime : r.begun.headTime = r.paid.headTime := by rw [hbegun, ht]
    have hdeposited := feeSinks_createOrder hnonneg hdeposit op.seller
    change LimitOrderCreate.payFee op r.prepared r.converted = .ok () r.paid at hpay
    unfold LimitOrderCreate.payFee at hpay
    rw [get_bind] at hpay
    split at hpay
    · next hearly =>
      have hsame : r.paid.headTime = r.converted.headTime := by
        obtain ⟨_, hpaid, -⟩ := payFee_ok hpay
        rw [hpaid]
      rw [htime, hsame, if_pos hearly] at hdeposited
      rw [r.credited_of (feeSinks_payFee hpay) hdeposited, add_zero]
      exact (one_mul _).symm
    · next hlate =>
      obtain ⟨-, hsame⟩ := pure_eq_ok.mp hpay
      rw [htime, ← hsame, if_neg hlate] at hdeposited
      have hpaid : r.paid.feeSinks op.seller = r.converted.feeSinks op.seller + 0 := by
        rw [hsame, add_zero]
      rw [r.credited_of hpaid hdeposited, zero_add]
      exact (one_mul _).symm
  | assetCreate op =>
    obtain ⟨_, t, hcreate, h⟩ := bind_eq_ok.mp ((get_bind _ _).symm.trans hdeposit)
    obtain ⟨-, rfl⟩ := pure_eq_ok.mp h
    rw [r.credited_of (feeSinks_payFee hpay) (feeSinks_createAsset hcreate op.issuer)]
    exact (two_mul _).symm

end Run

/-! ### Conservation -/

/-- Nothing is rounded: the operation does not create an asset, or its fee is an even amount of core,
or a fee in another asset that is worth no core. -/
def SplitsEvenly (x : Registered ρ) (s : Books) : Prop :=
  match x with
  | assetCreate op =>
    (op.fee.assetId = core → Even op.fee.amount) ∧
      (op.fee.assetId ≠ core → ∀ a c, s.assets.lookup op.fee.assetId = some a →
        op.fee.mul a.options.coreExchangeRate = .ok c → c.amount = 0)
  | _ => True

/-- **Fees are conserved** by every accepted operation, but for the fees of new assets, and by these
exactly if nothing is rounded. -/
theorem fees_conserved_iff {x : Registered ρ} (r : x.Run S skip s s') :
    r.Conserves ↔ x.SplitsEvenly s := by
  have hcredited := r.credited_eq
  have hleft := r.left_eq
  obtain ⟨hnonneg, hcore, hworth⟩ := r.prepared_spec
  have hconserves : r.Conserves ↔ r.left = r.credited := by
    refine ⟨fun h => h.credited_eq, fun h => ⟨h, fun hid => ?_⟩⟩
    rw [r.balance_eq, if_pos rfl, (r.convert_spec hid).2]
    exact ⟨rfl, add_sub_cancel_left _ _⟩
  rw [hconserves, hleft, hcredited]
  -- a fee that is credited once is the fee that was prepared
  have hwhole : x.shares = 1 → x.coreFeePaid r.prepared = r.prepared →
      (if x.fee.assetId = core then x.fee.amount else x.coreFeePaid r.prepared) =
        x.shares * x.coreFeePaid r.prepared := by
    intro hshares hpaid
    rw [hshares, hpaid, one_mul]
    split
    · next hid => exact (hcore hid).symm
    · rfl
  cases x with
  | plain e | transferToBlind e | blindTransfer e | transferFromBlind e =>
    exact iff_of_true (hwhole rfl rfl) trivial
  | limitOrderCreate op => exact iff_of_true (hwhole rfl rfl) trivial
  | assetCreate op =>
    change (if op.fee.assetId = core then op.fee.amount else r.prepared - r.prepared / 2) =
      2 * (r.prepared - r.prepared / 2) ↔ _
    by_cases hid : op.fee.assetId = core
    · have hamount : r.prepared = op.fee.amount := hcore hid
      rw [if_pos hid, hamount]
      have heven : op.fee.amount = 2 * (op.fee.amount - op.fee.amount / 2) ↔ Even op.fee.amount := by
        rw [Int.even_iff]
        omega
      exact heven.trans ⟨fun h => ⟨fun _ => h, fun hne => absurd hid hne⟩, fun h => h.1 hid⟩
    · obtain ⟨a, c, ha, hc, hprepared⟩ := hworth hid
      rw [if_neg hid]
      have hzero : r.prepared - r.prepared / 2 = 2 * (r.prepared - r.prepared / 2) ↔
          c.amount = 0 := by omega
      refine hzero.trans ⟨fun h => ⟨fun hcore => absurd hcore hid, fun _ a' c' ha' hc' => ?_⟩,
        fun h => h.2 hid a c ha hc⟩
      obtain rfl : a = a' := Option.some.inj (ha.symm.trans ha')
      obtain rfl : c = c' := Except.ok.inj (hc.symm.trans hc')
      exact h

end Registered

/-! ### The operations of this model -/

/-- An evaluator that leaves its fee alone. -/
private def leavesFee {ρ : Type} (e : Evaluator ρ) (hcore : e.coreFeePaid = id)
    (hpay : e.payFee = Ledger.payFee e.feePayer) (happly : ∀ f g, e.doApply f = e.doApply g) :
    Σ ρ, Registered ρ :=
  ⟨ρ, .plain ⟨e, hcore, hpay, happly⟩⟩

/-- The evaluator of an operation. -/
def Operation.registered (S : Settings) : Operation → Σ ρ, Registered ρ
  | transfer op => leavesFee (op.evaluator S) rfl rfl fun _ _ => rfl
  | limitOrderCreate op => ⟨_, .limitOrderCreate op⟩
  | limitOrderCancel op => leavesFee op.evaluator rfl rfl fun _ _ => rfl
  | callOrderUpdate op => leavesFee op.evaluator rfl rfl fun _ _ => rfl
  | assetCreate op => ⟨_, .assetCreate op⟩
  | assetUpdate op => leavesFee op.evaluator rfl rfl fun _ _ => rfl
  | assetUpdateBitasset op => leavesFee op.evaluator rfl rfl fun _ _ => rfl
  | assetUpdateFeedProducers op => leavesFee op.evaluator rfl rfl fun _ _ => rfl
  | assetIssue op => leavesFee (op.evaluator S) rfl rfl fun _ _ => rfl
  | assetReserve op => leavesFee (op.evaluator S) rfl rfl fun _ _ => rfl
  | assetFundFeePool op => leavesFee op.evaluator rfl rfl fun _ _ => rfl
  | assetSettle op => leavesFee op.evaluator rfl rfl fun _ _ => rfl
  | assetGlobalSettle op => leavesFee op.evaluator rfl rfl fun _ _ => rfl
  | assetPublishFeed op => leavesFee (op.evaluator S) rfl rfl fun _ _ => rfl
  | assetClaimFees op => leavesFee op.evaluator rfl rfl fun _ _ => rfl
  | lock (.setLockData op) => leavesFee op.evaluator rfl rfl fun _ _ => rfl
  | lock (.lockBalance op) => leavesFee (op.evaluator S) rfl rfl fun _ _ => rfl
  | lock (.unlockBalance op) => leavesFee op.evaluator rfl rfl fun _ _ => rfl
  | lock (.donationBalance op) => leavesFee op.evaluator rfl rfl fun _ _ => rfl

/-- An operation that is accepted has a run, so what is said of runs is said of all operations. -/
theorem Operation.nonempty_run {S : Settings} {op : Operation} {s s' : Books} {u : Unit}
    (h : op.run S s = .ok u s') : Nonempty ((op.registered S).2.Run S false s s') := by
  rw [Registered.nonempty_run_iff]
  cases op with
  | assetCreate op =>
    obtain ⟨_, -, h⟩ := bind_eq_ok_of_read (fun hv => (AssetCreate.maxSupply_pos hv).1) h
    exact h
  | assetUpdate op =>
    obtain ⟨_, -, h⟩ := bind_eq_ok_of_read AssetUpdate.validate_read h
    exact h
  | assetPublishFeed op =>
    obtain ⟨_, -, h⟩ := bind_eq_ok_of_read (fun hv => (AssetPublishFeed.validate_ok hv).1) h
    exact h
  | lock op =>
    cases op with
    | setLockData op | lockBalance op | unlockBalance op | donationBalance op =>
      exact (assert_bind_eq_ok.mp h).2
  | transfer op | limitOrderCreate op | limitOrderCancel op | callOrderUpdate op
  | assetUpdateBitasset op | assetUpdateFeedProducers op | assetIssue op | assetReserve op
  | assetFundFeePool op | assetSettle op | assetGlobalSettle op | assetClaimFees op =>
    exact (assert_bind_eq_ok.mp h).2

section Example

/-- A new asset, for a fee. -/
private def newAsset (amount : ℤ) : AssetCreate where
  fee := ⟨amount, core⟩
  issuer := 10
  symbol := "NEW"
  precision := 5
  commonOptions := .plain maxShareSupply ∅ ⟨⟨1, core⟩, ⟨1, 1⟩⟩
  bitassetOpts := none
  isPredictionMarket := false

private theorem run_newAsset (amount : ℤ)
    (h : (((Registered.assetCreate (newAsset amount)).evaluator smallSettings).run smallSettings
      false).run' smallChain = some ()) : ∃ s', Nonempty
        ((Registered.assetCreate (newAsset amount)).Run smallSettings false smallChain s') :=
  ⟨_, Registered.nonempty_run_iff.mpr (ok_final_of_run' h)⟩

theorem fees_conserved_iff_even : ∃ s', ∃ r :
    (Registered.assetCreate (newAsset 20)).Run smallSettings false smallChain s', r.Conserves := by
  obtain ⟨s', ⟨r⟩⟩ := run_newAsset 20 (by decide +kernel)
  refine ⟨s', r, (Registered.fees_conserved_iff r).mpr ⟨fun _ => ⟨10, rfl⟩, fun h => absurd rfl h⟩⟩

/-- Of a fee of 21 half is credited twice, which is 22. -/
theorem not_fees_conserved : ¬ ∀ (S : Settings) (skip : Bool) (s s' : Books)
    (x : Registered Unit) (r : x.Run S skip s s'), r.Conserves := by
  intro h
  obtain ⟨s', ⟨r⟩⟩ := run_newAsset 21 (by decide +kernel)
  have hequal := (h _ _ _ _ _ r).credited_eq
  rw [r.left_eq, r.credited_eq, r.prepared_spec.2.1 rfl] at hequal
  exact absurd hequal (by decide)

end Example

end FinChain.Ledger
