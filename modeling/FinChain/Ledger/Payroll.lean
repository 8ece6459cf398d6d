import FinChain.Ledger.Events
import Mathlib.Data.List.Forall2

/-!
# The payroll

`pay_workers` goes through the active workers with a positive approving stake, from the most to the least
approved, and gives each of them the pay for the time since the last budget, or what is left of the budget.
Which amounts these are is decided by the budget, the time and the workers alone (`payroll`), and the loop
pays just them (`payWorkerList_eq`).

The pay is computed in 128 bits and passes through an unsigned number of 64 bits into a `share_type`.
Where it does not fit there, the request is a negative amount, or the conversion throws. As long as no such
request is reached, the payments are bounded and in order (`pay_workers_in_order_iff`). With the largest daily
pay a request is too large after ten days without a maintenance.
-/

namespace FinChain.Ledger

open Exec

/-! ### Workers -/

/-- What `worker_create_operation::validate` reads. -/
structure WorkerCreateOperation where
  fee : Asset
  workBeginDate : ℕ
  workEndDate : ℕ
  dailyPay : ℤ
  name : String
  url : String

/-- `GRAPHENE_MAX_WORKER_NAME_LENGTH` and `GRAPHENE_MAX_URL_LENGTH`. -/
def maxWorkerNameLength : ℕ := 63

def maxUrlLength : ℕ := 127

/-- `worker_create_operation::validate`. -/
def WorkerCreateOperation.validate (op : WorkerCreateOperation) : Except LedgerError Unit := do
  check .assertion (0 ≤ op.fee.amount)
  check .assertion (op.workBeginDate < op.workEndDate)
  check .assertion (0 < op.dailyPay)
  check .assertion (op.dailyPay < maxShareSupply)
  check .assertion (op.name.utf8ByteSize < maxWorkerNameLength)
  check .assertion (op.url.utf8ByteSize < maxUrlLength)

/-- A worker that `worker_create` can have made. Nothing changes these fields later. -/
def Worker.Created (w : Worker) : Prop :=
  ∃ op : WorkerCreateOperation, op.validate = .ok () ∧ w.workBeginDate = op.workBeginDate ∧
    w.workEndDate = op.workEndDate ∧ w.dailyPay = op.dailyPay

theorem Worker.Created.dailyPay_bounds {w : Worker} (h : w.Created) :
    0 < w.dailyPay ∧ w.dailyPay < maxShareSupply := by
  obtain ⟨op, hop, -, -, hpay⟩ := h
  obtain ⟨-, hop⟩ := check_bind_eq_ok.mp hop
  obtain ⟨-, hop⟩ := check_bind_eq_ok.mp hop
  obtain ⟨hpos, hop⟩ := check_bind_eq_ok.mp hop
  obtain ⟨hlt, hop⟩ := check_bind_eq_ok.mp hop
  rw [hpay]
  exact ⟨hpos, hlt⟩

/-- The stake of a worker, by which the workers are ranked. -/
def Worker.approvingStake (w : Worker) : ℤ := w.totalVotesFor - w.totalVotesAgainst

/-- One worker is ranked after another: it has fewer votes, or as many and a higher id. -/
def RankedAfter (a b : ℕ × Worker) : Prop :=
  a.2.approvingStake < b.2.approvingStake ∨ a.2.approvingStake = b.2.approvingStake ∧ b.1 < a.1

/-- What a worker earns in some seconds. -/
def Worker.earned (w : Worker) (elapsed : ℤ) : ℤ := w.dailyPay * elapsed / 86400

/-- The request of a worker is what it has earned, which is narrowed to 64 bits. -/
theorem Worker.requestedPay_eq {w : Worker} {elapsed : ℤ} (hw : 0 < w.dailyPay ∧ w.dailyPay < maxShareSupply)
    (helapsed : 0 ≤ elapsed ∧ elapsed < 2 ^ 32) :
    w.requestedPay elapsed = (toUint64 (w.earned elapsed)).map int64 := by
  obtain ⟨hpos, hlt⟩ := hw
  have hmax : maxShareSupply = 10 ^ 18 := rfl
  unfold requestedPay earned
  split
  · next hday =>
    have hpay : w.dailyPay * elapsed / 86400 = w.dailyPay := by
      rw [hday]
      exact Int.mul_ediv_cancel _ (by decide)
    have hfits : w.dailyPay < 2 ^ 64 := by omega
    rw [hpay, toUint64, if_pos hfits]
    change _ = Except.ok (int64 w.dailyPay)
    rw [int64_of_lt hpos.le (by omega)]
  · -- the product fits in 128 bits, and the microseconds cancel
    have hproduct : w.dailyPay * (elapsed * 10 ^ 6) < 2 ^ 128 :=
      calc w.dailyPay * (elapsed * 10 ^ 6) ≤ 10 ^ 18 * (2 ^ 32 * 10 ^ 6) :=
            mul_le_mul (by omega) (by omega) (by omega) (by decide)
        _ < 2 ^ 128 := by decide
    have hnonneg : 0 ≤ w.dailyPay * (elapsed * 10 ^ 6) := mul_nonneg hpos.le (by omega)
    have hcancel : w.dailyPay * (elapsed * 10 ^ 6) / (86400 * 10 ^ 6) = w.dailyPay * elapsed / 86400 := by
      rw [← mul_assoc]
      exact Int.mul_ediv_mul_of_pos_left _ _ (by decide)
    rw [uint128_of_lt hpos.le (by omega), uint128_of_lt hnonneg hproduct, hcancel]

theorem Worker.earned_nonneg {w : Worker} {elapsed : ℤ} (hw : 0 < w.dailyPay) (helapsed : 0 ≤ elapsed) :
    0 ≤ w.earned elapsed :=
  Int.ediv_nonneg (mul_nonneg hw.le helapsed) (by decide)

theorem Worker.payFits_iff {w : Worker} {elapsed : ℤ} (hw : 0 < w.dailyPay) :
    w.PayFits elapsed ↔ w.earned elapsed < 2 ^ 63 := by
  unfold PayFits earned
  rw [Int.ediv_lt_iff_lt_mul (by decide)]
  exact and_iff_right hw.le

/-! ### The amounts -/

/-- The amounts the loop of `pay_workers` comes to pay, and what it returns then. -/
def payroll (elapsed : ℤ) : List (ℕ × Worker) → ℤ → List ℤ × Except LedgerError ℤ
  | [], budget => ([], .ok budget)
  | (_, w) :: ws, budget =>
    if 0 < budget then
      match w.requestedPay elapsed with
      | .error e => ([], .error e)
      | .ok requested =>
        let rest := payroll elapsed ws (budget - min budget requested)
        (min budget requested :: rest.1, rest.2)
    else ([], .ok budget)

/-- Pay the amounts to the workers, one after the other. -/
def payOut (ws : List (ℕ × Worker)) (amounts : List ℤ) (result : Except LedgerError ℤ) : LedgerM ℤ := do
  (ws.zip amounts).forM fun e => e.1.2.worker.payWorker e.1.1 e.2
  lift result

/-- **What the loop does** is to pay the amounts. -/
theorem payWorkerList_eq (elapsed : ℤ) (ws : List (ℕ × Worker)) (budget : ℤ) :
    payWorkerList elapsed ws budget =
      payOut ws (payroll elapsed ws budget).1 (payroll elapsed ws budget).2 := by
  induction ws generalizing budget with
  | nil => rfl
  | cons e ws ih =>
    obtain ⟨i, w⟩ := e
    unfold payWorkerList payroll
    split
    · cases hrequested : w.requestedPay elapsed with
      | error e => rfl
      | ok requested =>
        change (w.worker.payWorker i (min budget requested) >>= fun _ =>
            payWorkerList elapsed ws (budget - min budget requested)) =
          ((w.worker.payWorker i (min budget requested) >>= fun _ => (ws.zip _).forM _) >>= fun _ => lift _)
        rw [ih, bind_assoc]
        rfl
    · rfl

/-- The amounts of the workers the loop does not reach are zero. -/
def amountsFor (ws : List (ℕ × Worker)) (amounts : List ℤ) : List ℤ :=
  amounts ++ List.replicate (ws.length - amounts.length) 0

/-- The payments to ranked workers are bounded and in order. -/
structure InOrder (elapsed budget : ℤ) (ws : List (ℕ × Worker)) (amounts : List ℤ) (leftover : ℤ) : Prop where
  between : List.Forall₂ (fun e pay => 0 ≤ pay ∧ pay ≤ e.2.earned elapsed) ws amounts
  total : amounts.sum = budget - leftover
  nonneg : 0 ≤ leftover
  first : (ws.zip amounts).Pairwise fun a b => a.2 < a.1.2.earned elapsed → b.2 = 0

/-- Every worker that is reached with something left of the budget has earned no more than fits. -/
def RequestsFit (elapsed budget : ℤ) (ws : List (ℕ × Worker)) : Prop :=
  ∀ before e after, ws = before ++ e :: after →
    (before.map fun e => e.2.earned elapsed).sum < budget → e.2.PayFits elapsed

section Loop

variable {elapsed budget : ℤ} {ws : List (ℕ × Worker)}

theorem payroll_of_nonpos (hbudget : ¬ 0 < budget) : payroll elapsed ws budget = ([], .ok budget) := by
  cases ws with
  | nil => rfl
  | cons e ws => exact if_neg hbudget

theorem amountsFor_cons (e : ℕ × Worker) (pay : ℤ) (amounts : List ℤ) :
    amountsFor (e :: ws) (pay :: amounts) = pay :: amountsFor ws amounts := by
  unfold amountsFor
  rw [List.length_cons, List.length_cons, Nat.add_sub_add_right]
  rfl

theorem amountsFor_nil (ws : List (ℕ × Worker)) : amountsFor ws [] = ws.map fun _ => 0 := by
  unfold amountsFor
  rw [List.nil_append, List.length_nil, Nat.sub_zero, List.map_const']

theorem sum_earned_nonneg (hws : ∀ e ∈ ws, 0 < e.2.dailyPay) (helapsed : 0 ≤ elapsed) :
    0 ≤ (ws.map fun e => e.2.earned elapsed).sum := by
  refine List.sum_nonneg fun x hx => ?_
  obtain ⟨e, he, rfl⟩ := List.mem_map.mp hx
  exact Worker.earned_nonneg (hws e he) helapsed

/-- Workers that are not reached are paid nothing. -/
theorem pay_eq_zero_of_not_reached {b : (ℕ × Worker) × ℤ} (hb : b ∈ ws.zip (amountsFor ws [])) : b.2 = 0 := by
  obtain ⟨-, hmem⟩ := List.of_mem_zip hb
  rw [amountsFor_nil] at hmem
  obtain ⟨_, -, heq⟩ := List.mem_map.mp hmem
  exact heq.symm

/-- Nobody is paid from an empty budget. -/
theorem inOrder_of_empty (hws : ∀ e ∈ ws, 0 < e.2.dailyPay) (helapsed : 0 ≤ elapsed) :
    InOrder elapsed 0 ws (amountsFor ws []) 0 := by
  refine ⟨?_, ?_, le_rfl, ?_⟩
  · rw [amountsFor_nil]
    refine List.forall₂_map_right_iff.mpr (List.forall₂_same.mpr ?_)
    intro e he
    exact ⟨le_rfl, Worker.earned_nonneg (hws e he) helapsed⟩
  · simp [amountsFor_nil]
  · refine List.Pairwise.imp_of_mem ?_ (List.pairwise_of_forall fun _ _ => trivial)
    intro a b _ hb _ _
    exact pay_eq_zero_of_not_reached hb

/-- A worker that is paid takes what it has earned off the budget of the others. -/
theorem requestsFit_cons {e : ℕ × Worker} (hws : ∀ e ∈ ws, 0 < e.2.dailyPay) (helapsed : 0 ≤ elapsed)
    (hpos : 0 < budget) :
    RequestsFit elapsed budget (e :: ws) ↔
      e.2.PayFits elapsed ∧ RequestsFit elapsed (budget - min budget (e.2.earned elapsed)) ws := by
  constructor
  · intro h
    refine ⟨h [] e ws rfl hpos, fun before e' after hsplit hlt => ?_⟩
    have hbefore : 0 ≤ (before.map fun e => e.2.earned elapsed).sum :=
      sum_earned_nonneg (fun e he => hws e (by rw [hsplit]; exact List.mem_append_left _ he)) helapsed
    refine h (e :: before) e' after (by rw [hsplit]; rfl) ?_
    rw [List.map_cons, List.sum_cons]
    omega
  · rintro ⟨hfits, hrest⟩ before e' after hsplit hlt
    cases before with
    | nil =>
      obtain ⟨rfl, -⟩ := List.cons.inj hsplit
      exact hfits
    | cons e₀ before =>
      obtain ⟨rfl, htail⟩ := List.cons.inj hsplit
      rw [List.map_cons, List.sum_cons] at hlt
      have hbefore : 0 ≤ (before.map fun e => e.2.earned elapsed).sum :=
        sum_earned_nonneg (fun e he => hws e (by rw [htail]; exact List.mem_append_left _ he)) helapsed
      exact hrest before e' after htail (by omega)

theorem requestsFit_of_nonpos (hws : ∀ e ∈ ws, 0 < e.2.dailyPay) (helapsed : 0 ≤ elapsed)
    (hbudget : ¬ 0 < budget) : RequestsFit elapsed budget ws := by
  intro before e after hsplit hlt
  have hbefore : 0 ≤ (before.map fun e => e.2.earned elapsed).sum :=
    sum_earned_nonneg (fun e he => hws e (by rw [hsplit]; exact List.mem_append_left _ he)) helapsed
  omega

theorem Worker.requestedPay_of_fits {w : Worker} (hw : 0 < w.dailyPay ∧ w.dailyPay < maxShareSupply)
    (helapsed : 0 ≤ elapsed ∧ elapsed < 2 ^ 32) (hfits : w.PayFits elapsed) :
    w.requestedPay elapsed = .ok (w.earned elapsed) := by
  have hlt := (Worker.payFits_iff hw.1).mp hfits
  rw [Worker.requestedPay_eq hw helapsed, toUint64, if_pos (by omega)]
  change Except.ok (int64 (w.earned elapsed)) = _
  rw [int64_of_lt (Worker.earned_nonneg hw.1 helapsed.1) hlt]

/-- A request that does not fit is negative, if it does not throw. -/
theorem Worker.requestedPay_of_not_fits {w : Worker} (hw : 0 < w.dailyPay ∧ w.dailyPay < maxShareSupply)
    (helapsed : 0 ≤ elapsed ∧ elapsed < 2 ^ 32) (hfits : ¬ w.PayFits elapsed) {requested : ℤ}
    (h : w.requestedPay elapsed = .ok requested) : requested < 0 := by
  have hlarge := mt (Worker.payFits_iff hw.1).mpr hfits
  rw [Worker.requestedPay_eq hw helapsed, toUint64] at h
  split at h
  · next hlt =>
    obtain rfl := Except.ok.inj h
    have hwrap := int64_of_large (not_lt.mp hlarge)
    omega
  · cases h

/-- **The payments are in order** if the requests fit, by induction on the workers. -/
theorem inOrder_of_requestsFit (hws : ∀ e ∈ ws, 0 < e.2.dailyPay ∧ e.2.dailyPay < maxShareSupply)
    (helapsed : 0 ≤ elapsed ∧ elapsed < 2 ^ 32) (hbudget : 0 ≤ budget)
    (hfits : RequestsFit elapsed budget ws) :
    ∃ leftover, (payroll elapsed ws budget).2 = .ok leftover ∧
      InOrder elapsed budget ws (amountsFor ws (payroll elapsed ws budget).1) leftover := by
  have hpays : ∀ e ∈ ws, 0 < e.2.dailyPay := fun e he => (hws e he).1
  by_cases hpos : 0 < budget
  swap
  · obtain rfl : budget = 0 := le_antisymm (not_lt.mp hpos) hbudget
    rw [payroll_of_nonpos hpos]
    exact ⟨0, rfl, inOrder_of_empty hpays helapsed.1⟩
  induction ws generalizing budget with
  | nil => exact ⟨budget, rfl, .nil, (sub_self budget).symm, hbudget, .nil⟩
  | cons e ws ih =>
    have hrest : ∀ e ∈ ws, 0 < e.2.dailyPay ∧ e.2.dailyPay < maxShareSupply :=
      fun e' he' => hws e' (List.mem_cons_of_mem e he')
    have he := hws e List.mem_cons_self
    obtain ⟨hpay, hfits⟩ := (requestsFit_cons (fun e' he' => (hrest e' he').1) helapsed.1 hpos).mp hfits
    have hearned := Worker.earned_nonneg he.1 helapsed.1
    have hstep : payroll elapsed (e :: ws) budget =
        (min budget (e.2.earned elapsed) ::
            (payroll elapsed ws (budget - min budget (e.2.earned elapsed))).1,
          (payroll elapsed ws (budget - min budget (e.2.earned elapsed))).2) := by
      rw [payroll, if_pos hpos, Worker.requestedPay_of_fits he helapsed hpay]
    rw [hstep, amountsFor_cons]
    by_cases hmore : 0 < budget - min budget (e.2.earned elapsed)
    · obtain ⟨leftover, hresult, hlist⟩ :=
        ih hrest (by omega) hfits (fun e' he' => (hrest e' he').1) hmore
      refine ⟨leftover, hresult, .cons ⟨by omega, min_le_right _ _⟩ hlist.between, ?_, hlist.nonneg, ?_⟩
      · rw [List.sum_cons, hlist.total]
        omega
      · -- this worker is paid in full
        refine List.Pairwise.cons (fun b _ hlt => ?_) hlist.first
        change min budget (e.2.earned elapsed) < e.2.earned elapsed at hlt
        omega
    · have hzero : budget - min budget (e.2.earned elapsed) = 0 := by omega
      have hlist := inOrder_of_empty (fun e' he' => (hrest e' he').1) helapsed.1
      rw [hzero, payroll_of_nonpos (lt_irrefl 0)]
      refine ⟨0, rfl, .cons ⟨by omega, min_le_right _ _⟩ hlist.between, ?_, le_rfl, ?_⟩
      · rw [List.sum_cons, hlist.total]
        omega
      · exact List.Pairwise.cons (fun b hb _ => pay_eq_zero_of_not_reached hb) hlist.first

/-- If no payment is negative, all requests that were reached have fitted. -/
theorem requestsFit_of_nonneg (hws : ∀ e ∈ ws, 0 < e.2.dailyPay ∧ e.2.dailyPay < maxShareSupply)
    (helapsed : 0 ≤ elapsed ∧ elapsed < 2 ^ 32) {leftover : ℤ}
    (hresult : (payroll elapsed ws budget).2 = .ok leftover)
    (hnonneg : ∀ pay ∈ (payroll elapsed ws budget).1, 0 ≤ pay) : RequestsFit elapsed budget ws := by
  by_cases hpos : 0 < budget
  swap
  · exact requestsFit_of_nonpos (fun e he => (hws e he).1) helapsed.1 hpos
  induction ws generalizing budget with
  | nil =>
    intro before e after hsplit _
    exact absurd hsplit (List.append_ne_nil_of_right_ne_nil _ (List.cons_ne_nil _ _)).symm
  | cons e ws ih =>
    have hrest : ∀ e ∈ ws, 0 < e.2.dailyPay ∧ e.2.dailyPay < maxShareSupply :=
      fun e' he' => hws e' (List.mem_cons_of_mem e he')
    have he := hws e List.mem_cons_self
    rw [requestsFit_cons (fun e' he' => (hrest e' he').1) helapsed.1 hpos]
    rw [payroll, if_pos hpos] at hresult hnonneg
    cases hrequested : e.2.requestedPay elapsed with
    | error e =>
      rw [hrequested] at hresult
      cases hresult
    | ok requested =>
      rw [hrequested] at hresult hnonneg
      have hpay : 0 ≤ min budget requested := hnonneg _ List.mem_cons_self
      have hfits : e.2.PayFits elapsed := by
        by_contra hlarge
        have hnegative := Worker.requestedPay_of_not_fits he helapsed hlarge hrequested
        omega
      rw [Worker.requestedPay_of_fits he helapsed hfits] at hrequested
      obtain rfl := Except.ok.inj hrequested
      refine ⟨hfits, ?_⟩
      by_cases hmore : 0 < budget - min budget (e.2.earned elapsed)
      · exact ih hrest hresult (fun pay hmem => hnonneg pay (List.mem_cons_of_mem _ hmem)) hmore
      · exact requestsFit_of_nonpos (fun e' he' => (hrest e' he').1) helapsed.1 hmore

end Loop

/-! ### The workers in their order -/

/-- Active workers with a positive approving stake are paid, and no others. -/
theorem mem_paidWorkers {s : Books} {e : ℕ × Worker} :
    e ∈ s.paidWorkers ↔ e ∈ s.workers.entries ∧ e.2.workBeginDate ≤ s.headTime ∧
      s.headTime ≤ e.2.workEndDate ∧ 0 < e.2.approvingStake := by
  unfold Books.paidWorkers
  rw [List.mem_insertionSort, List.mem_filter]
  exact and_congr_right fun _ => decide_eq_true_iff

/-- No worker comes before one that it is ranked after. -/
theorem pairwise_paidWorkers (s : Books) : s.paidWorkers.Pairwise fun a b => ¬ RankedAfter a b := by
  have htotal : Std.Total workerBefore := ⟨fun a b => by unfold workerBefore; omega⟩
  have htrans : IsTrans (ℕ × Worker) workerBefore := ⟨fun a b c hab hbc => by unfold workerBefore at *; omega⟩
  refine (List.pairwise_insertionSort workerBefore _).imp fun {a b} hab => ?_
  unfold workerBefore at hab
  unfold RankedAfter Worker.approvingStake
  omega

/-- The payments of `pay_workers`: an amount for each active worker with a positive approving stake, in the
order of their ranks. -/
structure Books.PaysInOrder (s : Books) (budget : ℤ) (amounts : List ℤ) (leftover : ℤ) : Prop where
  between : List.Forall₂ (fun e pay => 0 ≤ pay ∧ pay ≤ e.2.earned (s.headTime - s.lastBudgetTime))
    s.paidWorkers amounts
  total : amounts.sum = budget - leftover
  nonneg : 0 ≤ leftover
  /-- Whoever is ranked after a worker that is paid less than its request is paid nothing. -/
  ranked : ∀ a ∈ s.paidWorkers.zip amounts, ∀ b ∈ s.paidWorkers.zip amounts, RankedAfter b.1 a.1 →
    a.2 < a.1.2.earned (s.headTime - s.lastBudgetTime) → b.2 = 0

theorem InOrder.paysInOrder {s : Books} {budget leftover : ℤ} {amounts : List ℤ}
    (h : InOrder (s.headTime - s.lastBudgetTime) budget s.paidWorkers amounts leftover) :
    s.PaysInOrder budget amounts leftover := by
  refine ⟨h.between, h.total, h.nonneg, fun a ha b hb hranked hless => ?_⟩
  have hlength := h.between.length_eq
  obtain ⟨i, hi, rfl⟩ := List.getElem_of_mem ha
  obtain ⟨j, hj, rfl⟩ := List.getElem_of_mem hb
  have hi' : i < s.paidWorkers.length := by rw [List.length_zip] at hi; omega
  have hj' : j < s.paidWorkers.length := by rw [List.length_zip] at hj; omega
  rcases lt_trichotomy i j with hlt | rfl | hlt
  · exact List.pairwise_iff_getElem.mp h.first i j hi hj hlt hless
  · unfold RankedAfter at hranked
    omega
  · -- the list would not be sorted
    rw [List.getElem_zip, List.getElem_zip] at hranked
    exact absurd hranked (List.pairwise_iff_getElem.mp (pairwise_paidWorkers s) j i hj' hi' hlt)

/-- The amounts that `pay_workers` comes to pay. -/
def Books.payroll (s : Books) (budget : ℤ) : List ℤ × Except LedgerError ℤ :=
  Ledger.payroll (s.headTime - s.lastBudgetTime) s.paidWorkers budget

/-- `pay_workers` goes through its workers, and its payments are bounded and in order. -/
def Books.PayrollInOrder (s : Books) (budget : ℤ) : Prop :=
  ∃ leftover, (s.payroll budget).2 = .ok leftover ∧
    s.PaysInOrder budget (amountsFor s.paidWorkers (s.payroll budget).1) leftover

/-- **Exactly when the payroll is bounded and in order.** `pay_workers` pays the amounts of its payroll, in
the order of the ranks, and these are as they should be if and only if the pay of every worker that is
reached, with something left of the budget, is a `share_type`. -/
theorem pay_workers_in_order_iff (s : Books) (budget : ℤ) (hworkers : ∀ e ∈ s.workers.entries, e.2.Created)
    (hlast : s.lastBudgetTime ≤ s.headTime) (htime : s.headTime < 2 ^ 32) (hbudget : 0 ≤ budget) :
    payWorkers budget s = payOut s.paidWorkers (s.payroll budget).1 (s.payroll budget).2 s ∧
      (s.PayrollInOrder budget ↔ RequestsFit (s.headTime - s.lastBudgetTime) budget s.paidWorkers) := by
  have hws : ∀ e ∈ s.paidWorkers, 0 < e.2.dailyPay ∧ e.2.dailyPay < maxShareSupply :=
    fun e he => (hworkers e (mem_paidWorkers.mp he).1).dailyPay_bounds
  have helapsed : (0 : ℤ) ≤ s.headTime - s.lastBudgetTime ∧ (s.headTime - s.lastBudgetTime : ℤ) < 2 ^ 32 := by
    omega
  refine ⟨?_, ?_, fun hfits => ?_⟩
  · unfold payWorkers Books.payroll
    rw [get_bind, payWorkerList_eq]
  · rintro ⟨leftover, hresult, hpays⟩
    refine requestsFit_of_nonneg hws helapsed hresult fun pay hpay => ?_
    have hmem : pay ∈ amountsFor s.paidWorkers (s.payroll budget).1 := List.mem_append_left _ hpay
    obtain ⟨i, hi, rfl⟩ := List.getElem_of_mem hmem
    exact (hpays.between.get (by rw [hpays.between.length_eq]; exact hi) hi).1
  · obtain ⟨leftover, hresult, hlist⟩ := inOrder_of_requestsFit hws helapsed hbudget hfits
    exact ⟨leftover, hresult, hlist.paysInOrder⟩

/-- An approved worker with some daily pay, and a chain that had its last budget some time ago. -/
private def approvedWorker (dailyPay : ℤ) : Worker :=
  ⟨1400000000, 1600000000, dailyPay, .refund 0, 5, 0⟩

private def withApproved (dailyPay : ℤ) (elapsed : ℕ) : Books :=
  { smallChain with
    workers := Index.empty.create (approvedWorker dailyPay)
    lastBudgetTime := smallChain.headTime - elapsed }

theorem pay_workers_in_order_twoDays :
    (withApproved 1000 172800).PayrollInOrder 1500 :=
  (pay_workers_in_order_iff (withApproved 1000 172800) 1500 (by
      intro e he
      obtain rfl : e = (0, approvedWorker 1000) := List.mem_singleton.mp he
      exact ⟨⟨⟨0, core⟩, 1400000000, 1600000000, 1000, "worker", "url"⟩, by decide, rfl, rfl, rfl⟩)
    (by decide) (by decide) (by decide)).2.mpr (by
      intro before e after hsplit _
      have hmem : e ∈ (withApproved 1000 172800).paidWorkers := by rw [hsplit]; simp
      obtain rfl : e = (0, approvedWorker 1000) := List.mem_singleton.mp (mem_paidWorkers.mp hmem).1
      exact ⟨by decide, by decide⟩)

/-- With the largest daily pay, a worker that is paid after ten days would be paid a negative amount. -/
theorem not_payrollInOrder : ¬ (withApproved (10 ^ 18 - 1) 864000).PayrollInOrder 100 := by
  rintro ⟨leftover, -, hpays⟩
  have hamounts : amountsFor (withApproved (10 ^ 18 - 1) 864000).paidWorkers
      ((withApproved (10 ^ 18 - 1) 864000).payroll 100).1 = [-8446744073709551626] := by decide
  have hbetween := hpays.between
  rw [hamounts] at hbetween
  obtain ⟨hnonneg, -⟩ := hbetween.get (by decide) (by decide : 0 < 1)
  exact absurd hnonneg (by decide)

end FinChain.Ledger
