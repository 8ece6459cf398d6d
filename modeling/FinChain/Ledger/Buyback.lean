import FinChain.Ledger.ChangeFrames
import Mathlib.Data.Prod.Lex

/-!
# Buyback orders

`create_buyback_orders`, which runs at maintenance: what the buyback account of an asset holds of other
assets is sold for that asset. Each holding is offered for whatever is paid for it, and what is not sold at
once is cancelled.

Both operations run inside a try block, and the catch branch goes on with the next holding. No undo session is
started for the block. An operation that is refused by its checks has not changed anything, but an exception
that is thrown when the order is there already, by a margin call or by the matching of orders, leaves it in
the book, and what it offers has been taken from the account. So buyback processing leaves nothing half done
just if no exception comes after the checks (`leavesNothing_iff_completes`).
-/

namespace FinChain.Ledger

open Exec

/-- `time_point_sec::maximum()`. -/
def maximumTime : ℕ := 2 ^ 32 - 1

/-- A `share_type`. -/
def shareType (x : ℤ) : ℤ := x.bmod (2 ^ 64)

theorem shareType_fits (x : ℤ) : FitsShare (shareType x) := by
  have hlower := @Int.le_bmod x (2 ^ 64) (by decide)
  have hupper := @Int.bmod_lt x (2 ^ 64) (by decide)
  unfold FitsShare shareType
  omega

/-- The assets in which an account has a balance. -/
def Books.assetsHeld (s : Books) (owner : ℕ) : List ℕ :=
  (s.balances.keys.filter fun k => decide (k.1 = owner)).map Prod.snd

/-- `lower_bound` of the balances of an account: the first asset from `nextAsset` on. -/
def Books.nextHolding (s : Books) (owner nextAsset : ℕ) : Option ℕ :=
  ((s.assetsHeld owner).filter (nextAsset ≤ ·)).min?

/-- `amount_to_sell`. -/
def Books.amountToSell (s : Books) (owner assetToSell : ℕ) : ℤ := shareType (s.getBalance owner assetToSell)

/-! ### The try block -/

/-- A round of the loop over the balances that comes to the try block. -/
structure BuybackRound where
  before : Books
  account : ℕ
  assetToSell : ℕ
  assetToBuy : ℕ
  assets_ne : assetToSell ≠ assetToBuy

namespace BuybackRound

variable (S : Settings) (r : BuybackRound)

def createVop : LimitOrderCreate where
  fee := ⟨0, core⟩
  seller := r.account
  amountToSell := ⟨r.before.amountToSell r.account r.assetToSell, r.assetToSell⟩
  minToReceive := ⟨1, r.assetToBuy⟩
  expiration := maximumTime
  fillOrKill := false
  amountToSell_fits := shareType_fits _
  minToReceive_fits := (by decide : FitsShare 1)

def cancelVop (orderId : ℕ) : LimitOrderCancel where
  fee := ⟨0, core⟩
  feePayingAccount := r.account
  order := orderId

/-- What is left of the order is cancelled. -/
def cancelRest (orderId : ℕ) : LedgerM Unit := do
  let s ← get
  match s.limitOrders.lookup orderId with
  | none => pure ()
  | some _ => (r.cancelVop orderId).evaluator.run S true

/-- The try block. The operation returns the id of the new order, which is the next one. -/
def tryBlock : LedgerM Unit := do
  let s ← get
  (r.createVop.evaluator S).run S true
  r.cancelRest S s.limitOrders.next

/-- The exception that leaves the try block. -/
def caught : Option LedgerError := thrown (r.tryBlock S) r.before

/-- The objects after the round. The catch branch does not change them. -/
def after : Books := final (r.tryBlock S) r.before

end BuybackRound

/-! ### The loops -/

/-- How a run ends. -/
inductive Ending
  | returned
  | thrown (e : LedgerError)
  /-- The fuel was not enough. -/
  | unfinished
  deriving DecidableEq

/-- A run of the loops: the rounds that came to the try block, and the objects at the end. -/
structure BuybackRun where
  rounds : List BuybackRound
  ending : Ending
  books : Books

/-- Go on with the objects that a run leaves, if it returns. -/
def BuybackRun.andThen (r : BuybackRun) (f : Books → BuybackRun) : BuybackRun :=
  if r.ending = .returned then ⟨r.rounds ++ (f r.books).rounds, (f r.books).ending, (f r.books).books⟩ else r

/-- What a round of the loop over the balances comes to: the end of the loop, the next round, or the try
block. -/
inductive HoldingStep
  | finish
  | skip (assetToSell : ℕ)
  | sell (round : BuybackRound)

/-- A round up to the try block. -/
def Books.holdingStep (s : Books) (account assetToBuy : ℕ) (allowed : Finset ℕ) (nextAsset : ℕ) : HoldingStep :=
  match s.nextHolding account nextAsset with
  | none => .finish
  | some assetToSell =>
    if h : assetToSell = assetToBuy then .skip assetToSell
    else if s.amountToSell account assetToSell = 0 ∨ assetToSell ∉ allowed then .skip assetToSell
    else .sell ⟨s, account, assetToSell, assetToBuy, h⟩

/-- The loop over the balances of a buyback account. -/
def sellHoldings (S : Settings) (account assetToBuy : ℕ) (allowed : Finset ℕ) : (fuel nextAsset : ℕ) → Books →
    BuybackRun
  | 0, _, s => ⟨[], .unfinished, s⟩
  | fuel + 1, nextAsset, s =>
    match s.holdingStep account assetToBuy allowed nextAsset with
    | .finish => ⟨[], .returned, s⟩
    | .skip assetToSell => sellHoldings S account assetToBuy allowed fuel (assetToSell + 1) s
    | .sell round =>
      -- not an exception, hence not caught
      if round.caught S = some .danglingIterator then ⟨[], .thrown .danglingIterator, round.after S⟩
      else
        BuybackRun.andThen ⟨[round], .returned, round.after S⟩
          (sellHoldings S account assetToBuy allowed fuel (round.assetToSell + 1))

/-- The buyback account of an asset with its `allowed_assets`, which are given for all accounts. -/
def buybackAccount (allowedAssets : Table ℕ (Option (Finset ℕ))) (assetToBuy : ℕ) (s : Books) :
    Except LedgerError (ℕ × Option (Finset ℕ)) :=
  match s.assets.lookup assetToBuy with
  | none => .error .notFound
  | some asset =>
    match asset.buybackAccount with
    -- the assertion before the `*` of an empty `optional`
    | none => .error .danglingIterator
    | some account =>
      match allowedAssets.lookup account with
      | none => .error .notFound
      | some allowed => .ok (account, allowed)

/-- `create_buyback_orders`; of the buyback objects the assets to buy are given, in order of the ids. -/
def createBuybackOrders (S : Settings) (allowedAssets : Table ℕ (Option (Finset ℕ))) (fuel : ℕ) :
    List ℕ → Books → BuybackRun
  | [], s => ⟨[], .returned, s⟩
  | assetToBuy :: bbos, s =>
    match buybackAccount allowedAssets assetToBuy s with
    | .error e => ⟨[], .thrown e, s⟩
    | .ok (_, none) => createBuybackOrders S allowedAssets fuel bbos s
    | .ok (account, some allowed) =>
      (sellHoldings S account assetToBuy allowed fuel 0 s).andThen
        (createBuybackOrders S allowedAssets fuel bbos)

/-! ### Limit orders that come and go -/

/-- No limit order was created, and no asset. -/
structure NoNewOrder (s s' : Books) : Prop where
  assets : s'.assets = s.assets
  next : s'.limitOrders.next = s.limitOrders.next
  gone : ∀ id, s.limitOrders.lookup id = none → s'.limitOrders.lookup id = none

/-- One limit order was created, and no asset. -/
structure OneNewOrder (s s' : Books) : Prop where
  assets : s'.assets = s.assets
  next : s'.limitOrders.next = s.limitOrders.next + 1
  gone : ∀ id, id ≠ s.limitOrders.next → s.limitOrders.lookup id = none → s'.limitOrders.lookup id = none

namespace NoNewOrder

variable {s s' s'' : Books}

theorem of_eq (hassets : s'.assets = s.assets) (horders : s'.limitOrders = s.limitOrders) : NoNewOrder s s' where
  assets := hassets
  next := by rw [horders]
  gone id hid := by rwa [horders]

theorem frame : ChangeFrame NoNewOrder where
  refl _ := .of_eq rfl rfl
  trans h₁ h₂ :=
    ⟨h₂.assets.trans h₁.assets, h₂.next.trans h₁.next, fun id hid => h₂.gone id (h₁.gone id hid)⟩
  balances _ _ := .of_eq rfl rfl
  statistics _ _ := .of_eq rfl rfl
  dynamicData _ _ := .of_eq rfl rfl
  bitassets _ _ := .of_eq rfl rfl
  callOrders _ _ := .of_eq rfl rfl
  modifyLimit s id g := by
    refine ⟨rfl, rfl, fun k hk => ?_⟩
    exact Table.lookup_modify_eq_none id g hk
  eraseLimit s id := by
    refine ⟨rfl, rfl, fun k hk => ?_⟩
    change (s.limitOrders.erase id).lookup k = none
    rw [Index.lookup_erase, hk, ite_self]

theorem create (o : LimitOrder) : OneNewOrder s { s with limitOrders := s.limitOrders.create o } := by
  refine ⟨rfl, rfl, fun id hid hgone => ?_⟩
  change (s.limitOrders.create o).lookup id = none
  rw [Index.lookup_create, if_neg hid, hgone]

theorem thenOne (h : NoNewOrder s s') (h' : OneNewOrder s' s'') : OneNewOrder s s'' where
  assets := h'.assets.trans h.assets
  next := by rw [h'.next, h.next]
  gone id hid hgone := h'.gone id (h.next ▸ hid) (h.gone id hgone)

end NoNewOrder

theorem OneNewOrder.thenNone {s s' s'' : Books} (h : OneNewOrder s s') (h' : NoNewOrder s' s'') :
    OneNewOrder s s'' where
  assets := h'.assets.trans h.assets
  next := by rw [h'.next, h.next]
  gone id hid hgone := h'.gone id (h.gone id hid hgone)

/-! ### The operations -/

theorem modifyStatistics_returns {account : ℕ} {s : Books} {a : AccountStatistics}
    (g : AccountStatistics → AccountStatistics) (ha : s.statistics.lookup account = some a) :
    modifyStatistics account g s = .ok () { s with statistics := s.statistics.insert account (g a) } := by
  unfold modifyStatistics
  rw [get_bind, ha]
  rfl

/-- The checks that come before anything is changed; the fee in core. -/
def LimitOrderCreate.checks (S : Settings) (op : LimitOrderCreate) : LedgerM ℤ := do
  let coreFeePaid ← prepareFee S op.seller op.fee
  op.doEvaluate S
  return coreFeePaid

/-- The operation passes its checks. -/
def LimitOrderCreate.Accepted (S : Settings) (op : LimitOrderCreate) (s : Books) : Prop :=
  thrown (op.checks S) s = none

namespace LimitOrderCreate

variable {S : Settings} {op : LimitOrderCreate} {s : Books}

theorem final_checks (S : Settings) (op : LimitOrderCreate) (s : Books) : final (op.checks S) s = s := by
  have hP := (Frame.eq (id : Books → Books)).passing (ε := LedgerError)
  have hkeeps : Keeps (fun s s' : Books => s' = s) (op.checks S) :=
    hP.bind (prepareFee_passing hP S _ _) fun _ => hP.bind (op.doEvaluate_passing hP S) fun _ => hP.pure _
  exact hkeeps s

theorem checks_of_refused (h : ¬ op.Accepted S s) : ∃ e, op.checks S s = .error e s := by
  obtain ⟨e, he⟩ := Option.ne_none_iff_exists'.mp h
  refine ⟨e, ?_⟩
  rw [error_final_of_thrown he, final_checks]

/-- What holds when the checks are passed. -/
theorem checks_of_accepted (h : op.Accepted S s) : ∃ f, op.checks S s = .ok f s ∧
    (∃ a, s.statistics.lookup op.seller = some a) ∧ (∃ a, s.assets.lookup op.amountToSell.assetId = some a) ∧
      op.amountToSell.amount ≤ s.getBalance op.seller op.amountToSell.assetId := by
  obtain ⟨f, s', hok⟩ := thrown_eq_none.mp h
  have hsame : s' = s := by rw [← final_of_ok hok, final_checks]
  subst hsame
  refine ⟨f, hok, ?_⟩
  obtain ⟨f', hprepare, h⟩ := bind_eq_ok_of_read (fun hx => (prepareFee_ok hx).1.symm) hok
  constructor
  · unfold prepareFee at hprepare
    rw [get_bind] at hprepare
    obtain ⟨-, hprepare⟩ := assert_bind_eq_ok.mp hprepare
    obtain ⟨a, ha, -⟩ := require_bind_eq_ok.mp hprepare
    exact ⟨a, ha⟩
  · obtain ⟨_, _, hevaluate, -⟩ := bind_eq_ok.mp h
    unfold doEvaluate at hevaluate
    rw [get_bind] at hevaluate
    obtain ⟨-, hevaluate⟩ := assert_bind_eq_ok.mp hevaluate
    obtain ⟨a, ha, hevaluate⟩ := require_bind_eq_ok.mp hevaluate
    obtain ⟨_, -, hevaluate⟩ := require_bind_eq_ok.mp hevaluate
    obtain ⟨-, hevaluate⟩ := assert_bind_eq_ok.mp hevaluate
    obtain ⟨-, hevaluate⟩ := assert_bind_eq_ok.mp hevaluate
    obtain ⟨-, hevaluate⟩ := assert_bind_eq_ok.mp hevaluate
    obtain ⟨-, hevaluate⟩ := assert_bind_eq_ok.mp hevaluate
    exact ⟨⟨a, ha⟩, (assert_eq_ok.mp hevaluate).1⟩

end LimitOrderCreate

namespace BuybackRound

variable {S : Settings} {r : BuybackRound}

/-- What is done when the checks are passed, with the fee in core. -/
def applyCreate (r : BuybackRound) (coreFeePaid : ℤ) : LedgerM Unit := do
  r.createVop.payFee coreFeePaid
  r.createVop.doApply coreFeePaid

/-- There is no fee to be converted and charged. -/
theorem run_createVop (S : Settings) (r : BuybackRound) :
    (r.createVop.evaluator S).run S true = r.createVop.checks S >>= r.applyCreate := by
  unfold Evaluator.run LimitOrderCreate.checks
  rw [bind_assoc]
  refine bind_congr fun f => funext fun s => ?_
  have hskip : ∀ p : Prop, [Decidable p] →
      (assert .insufficientFee (true = true ∨ p) : LedgerM Unit) = pure () := fun p _ => if_pos (.inl rfl)
  have hconvert : convertFee (r.createVop.evaluator S).fee f = pure () := if_pos rfl
  have hcharge : adjustBalance r.account (r.createVop.evaluator S).fee.neg = pure () := if_pos rfl
  rw [get_bind, hskip, pure_bind, bind_assoc]
  refine congrFun (bind_congr fun _ => ?_) s
  rw [pure_bind]
  change convertFee (r.createVop.evaluator S).fee f >>= (fun _ => r.createVop.payFee f >>= fun _ =>
    r.createVop.doApply f >>= fun _ => adjustBalance r.account (r.createVop.evaluator S).fee.neg) = _
  rw [hconvert, hcharge, pure_bind, bind_pure_unit]
  rfl

theorem createOrder_returns (r : BuybackRound) (f : ℤ) (s : Books) :
    ∃ s₁, r.createVop.createOrder f s = .ok s.limitOrders.next s₁ ∧ OneNewOrder s s₁ := by
  have hprice : r.createVop.amountToSell.div r.createVop.minToReceive = .ok _ := if_pos r.assets_ne
  unfold LimitOrderCreate.createOrder
  rw [get_bind, hprice]
  exact ⟨_, rfl, NoNewOrder.create _⟩

theorem place_returns {s : Books} {a : AccountStatistics} (f : ℤ) (ha : s.statistics.lookup r.account = some a)
    (hbalance : r.createVop.amountToSell.amount ≤ s.getBalance r.account r.assetToSell) :
    ∃ s₁, r.createVop.place f s = .ok s.limitOrders.next s₁ ∧ OneNewOrder s s₁ := by
  let a' := LimitOrderCreate.intoOrders r.createVop.amountToSell a
  let s' : Books := { s with statistics := s.statistics.insert r.account a' }
  have hstatistics := modifyStatistics_returns (LimitOrderCreate.intoOrders r.createVop.amountToSell) ha
  have htake : ∃ t, adjustBalance r.account r.createVop.amountToSell.neg s' = .ok () { s' with balances := t } := by
    refine adjustBalance_returns ?_
    change 0 ≤ s.getBalance r.account r.assetToSell + -r.createVop.amountToSell.amount
    linarith
  obtain ⟨t, htake⟩ := htake
  obtain ⟨s₁, hcreate, hnew⟩ := r.createOrder_returns f _
  refine ⟨s₁, bind_eq_ok.mpr ⟨(), _, hstatistics, bind_eq_ok.mpr ⟨(), _, htake, hcreate⟩⟩, ?_⟩
  have hpaid := NoNewOrder.frame.trans ((NoNewOrder.frame.modifyStatistics _ _).of_ok hstatistics)
    ((NoNewOrder.frame.adjustBalance _ _).of_ok htake)
  exact hpaid.thenOne hnew

theorem payFee_returns {s : Books} {a : AccountStatistics} (f : ℤ) (ha : s.statistics.lookup r.account = some a) :
    ∃ t a', r.createVop.payFee f s = .ok () { s with statistics := t } ∧ t.lookup r.account = some a' := by
  unfold LimitOrderCreate.payFee
  rw [get_bind]
  split
  · exact ⟨_, _, modifyStatistics_returns _ ha, AList.lookup_insert _⟩
  · exact ⟨s.statistics, a, rfl, ha⟩

/-- The new order is filled as far as possible. -/
def fillCreated (r : BuybackRound) (orderId : ℕ) : LedgerM Unit := do
  let filled ← applyOrder orderId true
  assert .assertion (r.createVop.fillOrKill = true → filled = true)

theorem doApply_createVop (r : BuybackRound) (f : ℤ) :
    r.createVop.doApply f = r.createVop.place f >>= r.fillCreated := by
  unfold LimitOrderCreate.doApply LimitOrderCreate.place
  simp only [bind_assoc]
  rfl

theorem keeps_fillCreated (r : BuybackRound) (orderId : ℕ) : Keeps NoNewOrder (r.fillCreated orderId) :=
  NoNewOrder.frame.programs.bind (NoNewOrder.frame.rules.applyOrder _ _) fun _ =>
    NoNewOrder.frame.programs.assert _ _

/-- An order is created when the checks are passed, whatever happens to it then. -/
theorem oneNewOrder_createVop {s : Books} (h : r.createVop.Accepted S s) :
    OneNewOrder s (final ((r.createVop.evaluator S).run S true) s) := by
  obtain ⟨f, hchecks, ⟨a, ha⟩, -, hbalance⟩ := LimitOrderCreate.checks_of_accepted h
  obtain ⟨t, a', hpay, ha'⟩ := payFee_returns f ha
  obtain ⟨s₁, hplace, hnew⟩ := place_returns (s := { s with statistics := t }) f ha' hbalance
  have hpaid := (NoNewOrder.frame.limitOrderCreate_payFee _ f).of_ok hpay
  rw [run_createVop, final_bind_of_ok hchecks]
  unfold applyCreate
  rw [final_bind_of_ok hpay, doApply_createVop, final_bind_of_ok hplace]
  exact (hpaid.thenOne hnew).thenNone (r.keeps_fillCreated _ s₁)

theorem error_of_refused {s : Books} (h : ¬ r.createVop.Accepted S s) :
    ∃ e, (r.createVop.evaluator S).run S true s = .error e s := by
  obtain ⟨e, hchecks⟩ := LimitOrderCreate.checks_of_refused h
  refine ⟨e, ?_⟩
  rw [run_createVop]
  exact bind_eq_error.mpr (.inl hchecks)

theorem keeps_cancelRest (orderId : ℕ) : Keeps NoNewOrder (r.cancelRest S orderId) := by
  have hP := NoNewOrder.frame.programs
  refine hP.get_bind fun s => ?_
  split
  · exact hP.pure ()
  · exact NoNewOrder.frame.limitOrderCancel _ true

/-- The order that was cancelled is gone. -/
theorem gone_of_cancelRest {orderId : ℕ} {s s' : Books} (h : r.cancelRest S orderId s = .ok () s') :
    s'.limitOrders.lookup orderId = none := by
  unfold cancelRest at h
  rw [get_bind] at h
  cases horder : s.limitOrders.lookup orderId with
  | none =>
    rw [horder] at h
    obtain ⟨-, rfl⟩ := pure_eq_ok.mp h
    exact horder
  | some order =>
    rw [horder] at h
    obtain ⟨f, o, s₁, s₂, s₃, s₄, -, -, -, -, -, happly, hcharge⟩ := Evaluator.run_eq_ok.mp h
    change (r.cancelVop orderId).doApply o s₃ = .ok () s₄ at happly
    rw [LimitOrderCancel.doApply_eq] at happly
    obtain ⟨_, s₅, hcancel, hcalls⟩ := bind_eq_ok.mp happly
    obtain ⟨_, s₆, -, -, hs₅⟩ := cancelLimitOrder_ok hcancel
    have herased : s₅.limitOrders.lookup orderId = none := by
      rw [hs₅]
      exact (Index.lookup_erase _ _ _).trans (if_pos rfl)
    -- margin calls and the fee come after it
    have hcalled : NoNewOrder s₅ s₄ := (NoNewOrder.frame.callBothAssets o).of_ok hcalls
    exact ((NoNewOrder.frame.adjustBalance _ _).of_ok hcharge).gone _ (hcalled.gone _ herased)

/-! ### The outcome of a round -/

theorem tryBlock_apply (S : Settings) (r : BuybackRound) (s : Books) : r.tryBlock S s =
    ((r.createVop.evaluator S).run S true >>= fun _ => r.cancelRest S s.limitOrders.next) s := get_bind _ _

theorem caught_of_refused (h : ¬ r.createVop.Accepted S r.before) :
    (∃ e, r.caught S = some e) ∧ r.after S = r.before := by
  obtain ⟨e, hrefused⟩ := error_of_refused h
  have herror : r.tryBlock S r.before = .error e r.before := by
    rw [tryBlock_apply]
    exact bind_eq_error.mpr (.inl hrefused)
  exact ⟨⟨e, by rw [caught, thrown, herror]⟩, by rw [after, final_of_error herror]⟩

theorem oneNewOrder_of_accepted (h : r.createVop.Accepted S r.before) : OneNewOrder r.before (r.after S) := by
  have hnew := oneNewOrder_createVop h
  unfold after
  cases hrun : (r.createVop.evaluator S).run S true r.before with
  | ok u s₁ =>
    have hrest : r.tryBlock S r.before = r.cancelRest S r.before.limitOrders.next s₁ := by
      rw [tryBlock_apply, bind_apply, hrun]
    rw [final_of_ok hrun] at hnew
    have hfinal : final (r.tryBlock S) r.before = final (r.cancelRest S r.before.limitOrders.next) s₁ := by
      rw [final, final, hrest]
    rw [hfinal]
    exact hnew.thenNone (r.keeps_cancelRest _ s₁)
  | error e s₁ =>
    have herror : r.tryBlock S r.before = .error e s₁ := by
      rw [tryBlock_apply]
      exact bind_eq_error.mpr (.inl hrun)
    rw [final_of_error hrun] at hnew
    rwa [final_of_error herror]

/-- Nothing is left of the order when the round ends without an exception. -/
theorem gone_of_completes (h : r.caught S = none) :
    (r.after S).limitOrders.lookup r.before.limitOrders.next = none := by
  obtain ⟨_, s', hrun⟩ := thrown_eq_none.mp h
  have hafter : r.after S = s' := final_of_ok hrun
  rw [tryBlock_apply] at hrun
  obtain ⟨_, s₁, -, hcancel⟩ := bind_eq_ok.mp hrun
  rw [hafter]
  exact gone_of_cancelRest hcancel

end BuybackRound

end FinChain.Ledger
