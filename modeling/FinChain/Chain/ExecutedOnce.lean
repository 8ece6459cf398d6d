import FinChain.Chain.ReviewPeriod

/-!
# A proposal is executed once

`push_proposal` goes through the operations of a proposal object that is in the database, and removes the object
after the last of them. While it does so it holds references to the object and to the operations in it. An
operation is read once more after it has been applied, for the account that pays its fee (`untilCharge`). So
the object has to be there all the time (`ThereThroughout`).

The model has the operations at hand in any case, and an attempt to remove what is not there throws in it. In
the source both are accesses to memory that was given back, and what happens then is not defined. Nothing
that is said here about the outcome of an execution tells something of the source, unless the object is there
throughout.

An operation of a proposal can remove the proposal itself: the ids of proposals are given out one after the
other, so a proposal can be created with its own deletion in it, and it is as well an authority for that as it
is for anything else it contains. This is the only way to remove it too early (`executedOnce_iff`).
-/

namespace FinChain.Chain

open Exec Ledger FinChain.Protocol

variable {Key Other R : Type} [LinearOrder Key]

/-! ### The operations of a proposal -/

section Parts

variable (E : Surroundings Key Other R)

/-- `start_evaluate` of an operation on proposals, until it reads off the operation who pays the fee. -/
def evaluateUntilCharge (op : Operation Key Other) (doEvaluate doApply : ProposalM Key Other R Unit) :
    ProposalM Key Other R Unit := do
  let s ← get
  lift (E.prepareFee op s.properties s.rest)
  doEvaluate
  onRest (E.payFee op)
  doApply

/-- `apply_operation` up to there. -/
def untilCharge (levels : ℕ) : Operation Key Other → ProposalM Key Other R Unit
  | .other op => onRest (E.apply op true)
  | .proposalCreate op => evaluateUntilCharge E (.proposalCreate op) (op.doEvaluate E) (op.doApply E)
  | .proposalUpdate fee op =>
    evaluateUntilCharge E (.proposalUpdate fee op) op.doEvaluate (op.doApply E (applyOperation E levels true))
  | .proposalDelete op => evaluateUntilCharge E (.proposalDelete op) op.doEvaluate op.doApply

/-- What is left to do. -/
def chargeFor : Operation Key Other → ProposalM Key Other R Unit
  | .other _ => pure ()
  | op => onRest (E.chargeFee op)

theorem applyOperation_eq (levels : ℕ) (op : Operation Key Other) :
    applyOperation E (levels + 1) true op = untilCharge E levels op >>= fun _ => chargeFor E op := by
  cases op with
  | other op => exact (bind_pure_unit).symm
  | proposalCreate | proposalUpdate | proposalDelete =>
    simp only [applyOperation, startEvaluate, untilCharge, evaluateUntilCharge, chargeFor, bind_assoc]

/-- The proposal is in the database. -/
def Alive (id : ℕ) (s : ProposalBooks Key Other R) : Prop := ∃ p, s.proposals.lookup id = some p

/-- While the operations are applied, the proposal is there whenever it is read: before each operation and
after the last one, and in the middle of each operation. -/
def ThereThroughout (levels id : ℕ) (p : ProposalObject Key (Operation Key Other))
    (s : ProposalBooks Key Other R) : Prop :=
  ∀ before after s₁, p.proposedOps = before ++ after →
    before.forM (applyOperation E (levels + 1) true) s = .ok () s₁ →
    Alive id s₁ ∧ ∀ op ∈ after.head?, ∀ s₂, untilCharge E levels op s₁ = .ok () s₂ → Alive id s₂

/-- The proposal contains its own deletion, which is reached and accepted when it is executed. -/
def DeletesItself (levels id : ℕ) (p : ProposalObject Key (Operation Key Other))
    (s : ProposalBooks Key Other R) : Prop :=
  ∃ before op after s₁ s₂, p.proposedOps = before ++ .proposalDelete op :: after ∧ op.proposal = id ∧
    before.forM (applyOperation E (levels + 1) true) s = .ok () s₁ ∧
    untilCharge E levels (.proposalDelete op) s₁ = .ok () s₂

end Parts

variable {E : Surroundings Key Other R} {s s' : ProposalBooks Key Other R} {levels id : ℕ}

omit [LinearOrder Key] in
theorem chargeFor_ok {op : Operation Key Other} {u : Unit} (h : chargeFor E op s = .ok u s') :
    ∃ r, s' = { s with rest := r } := by
  cases op with
  | other op =>
    obtain ⟨-, rfl⟩ := pure_eq_ok.mp h
    exact ⟨s.rest, rfl⟩
  | proposalCreate | proposalUpdate | proposalDelete => exact onRest_ok h

omit [LinearOrder Key] in
/-- The parts of an evaluator up to the charge. -/
theorem evaluateUntilCharge_ok {op : Operation Key Other} {doEvaluate doApply : ProposalM Key Other R Unit}
    {u : Unit} (hread : ∀ {s s₁ : ProposalBooks Key Other R} {u}, doEvaluate s = .ok u s₁ → s₁ = s)
    (h : evaluateUntilCharge E op doEvaluate doApply s = .ok u s') :
    ∃ r, doEvaluate s = .ok () s ∧ doApply { s with rest := r } = .ok () s' := by
  unfold evaluateUntilCharge at h
  rw [get_bind] at h
  obtain ⟨_, -, h⟩ := lift_bind_eq_ok.mp h
  obtain ⟨_, s₂, hevaluate, h⟩ := bind_eq_ok.mp h
  have hsame : s₂ = s := hread hevaluate
  rw [hsame] at hevaluate h
  obtain ⟨_, s₃, hpay, h⟩ := bind_eq_ok.mp h
  obtain ⟨r, rfl⟩ := onRest_ok hpay
  exact ⟨r, hevaluate, h⟩

/-- **What is there stays there**, but for its own deletion. -/
theorem alive_untilCharge {op : Operation Key Other} {u : Unit} (hplain : op.Plain)
    (hother : ∀ d, op = .proposalDelete d → d.proposal ≠ id) (hs : Alive id s)
    (h : untilCharge E levels op s = .ok u s') : Alive id s' := by
  obtain ⟨p, hp⟩ := hs
  cases op with
  | proposalUpdate fee op => cases hplain
  | other op =>
    obtain ⟨r, rfl⟩ := onRest_ok h
    exact ⟨p, hp⟩
  | proposalCreate op =>
    obtain ⟨r, -, happly⟩ := evaluateUntilCharge_ok (fun h => (ProposalCreate.doEvaluate_ok h).1) h
    obtain rfl := update_eq_ok.mp happly
    have hold : id < s.proposals.next :=
      s.proposals.fresh id (AList.lookup_isSome.mp (by rw [← Index.lookup, hp]; rfl))
    refine ⟨p, ?_⟩
    change (s.proposals.create (op.proposal E)).lookup id = some p
    rw [Index.lookup_create, if_neg hold.ne, hp]
  | proposalDelete op =>
    obtain ⟨r, -, happly⟩ := evaluateUntilCharge_ok ProposalDelete.doEvaluate_read h
    obtain ⟨-, rfl⟩ := removeProposal_ok happly
    refine ⟨p, ?_⟩
    change (s.proposals.erase op.proposal).lookup id = some p
    rw [Index.lookup_erase, if_neg (hother op rfl).symm, hp]

theorem alive_applyOperation {op : Operation Key Other} {u : Unit} (hplain : op.Plain)
    (hother : ∀ d, op = .proposalDelete d → d.proposal ≠ id) (hs : Alive id s)
    (h : applyOperation E (levels + 1) true op s = .ok u s') : Alive id s' := by
  rw [applyOperation_eq] at h
  obtain ⟨_, s₁, happly, h⟩ := bind_eq_ok.mp h
  obtain ⟨r, rfl⟩ := chargeFor_ok h
  obtain ⟨p, hp⟩ := alive_untilCharge hplain hother hs happly
  exact ⟨p, hp⟩

/-- An accepted deletion of a proposal. -/
theorem not_alive_of_delete {op : ProposalDelete} {u : Unit} (hid : op.proposal = id)
    (h : untilCharge E levels (.proposalDelete op) s = .ok u s') : ¬ Alive id s' := by
  obtain ⟨r, -, happly⟩ := evaluateUntilCharge_ok ProposalDelete.doEvaluate_read h
  obtain ⟨-, rfl⟩ := removeProposal_ok happly
  rintro ⟨p, hp⟩
  change (s.proposals.erase op.proposal).lookup id = some p at hp
  rw [Index.lookup_erase, if_pos hid.symm] at hp
  cases hp

/-- **Only its own deletion removes a proposal** while its operations are applied, by induction on those that
have been. -/
theorem thereThroughout_iff {p : ProposalObject Key (Operation Key Other)}
    (hplain : ∀ op ∈ p.proposedOps, op.Plain) (hp : s.proposals.lookup id = some p) :
    ThereThroughout E levels id p s ↔ ¬ DeletesItself E levels id p s := by
  constructor
  · rintro hthere ⟨before, op, after, s₁, s₂, hops, hid, hbefore, hdelete⟩
    exact not_alive_of_delete hid hdelete
      ((hthere before _ s₁ hops hbefore).2 _ (by rw [List.head?_cons]; rfl) s₂ hdelete)
  · intro hnot before after s₁ hops hbefore
    have hothers : ∀ before op after s₁ s₂, p.proposedOps = before ++ op :: after →
        before.forM (applyOperation E (levels + 1) true) s = .ok () s₁ →
        untilCharge E levels op s₁ = .ok () s₂ → ∀ d, op = .proposalDelete d → d.proposal ≠ id := by
      rintro before op after s₁ s₂ hops hbefore hstep d rfl hid
      exact hnot ⟨before, d, after, s₁, s₂, hops, hid, hbefore, hstep⟩
    have halive : Alive id s₁ := by
      induction before using List.reverseRec generalizing after s₁ with
      | nil =>
        obtain ⟨-, rfl⟩ := pure_eq_ok.mp hbefore
        exact ⟨p, hp⟩
      | append_singleton before op ih =>
        have happend : (before ++ [op]).forM (applyOperation E (levels + 1) true) =
            (before.forM (applyOperation E (levels + 1) true) >>= fun _ =>
              [op].forM (applyOperation E (levels + 1) true)) := List.forM_append
        rw [happend] at hbefore
        obtain ⟨_, s₀, hfirst, hlast⟩ := bind_eq_ok.mp hbefore
        obtain ⟨_, s₁', hop, hdone⟩ := bind_eq_ok.mp hlast
        obtain ⟨-, rfl⟩ := pure_eq_ok.mp hdone
        have hsplit : p.proposedOps = before ++ op :: after := by
          rw [hops, List.append_assoc]
          rfl
        have hmem : op ∈ p.proposedOps := by
          rw [hsplit]
          exact List.mem_append_right _ List.mem_cons_self
        have hop' := hop
        rw [applyOperation_eq] at hop'
        obtain ⟨_, s₂, hstep, -⟩ := bind_eq_ok.mp hop'
        exact alive_applyOperation (hplain op hmem) (hothers before op after s₀ s₂ hsplit hfirst hstep)
          (ih _ _ hsplit hfirst) hop
    refine ⟨halive, fun op hop s₂ hstep => ?_⟩
    obtain ⟨rest, hafter⟩ : ∃ rest, after = op :: rest := by
      cases after with
      | nil => cases hop
      | cons op' rest =>
        obtain rfl : op' = op := Option.some.inj hop
        exact ⟨rest, rfl⟩
    rw [hafter] at hops
    have hmem : op ∈ p.proposedOps := by
      rw [hops]
      exact List.mem_append_right _ List.mem_cons_self
    exact alive_untilCharge (hplain op hmem) (hothers before op rest s₁ s₂ hops hbefore hstep) halive hstep

/-! ### Exceptions -/

/-- The surroundings throw nothing but exceptions of the source. -/
structure Surroundings.ThrowsExceptions (E : Surroundings Key Other R) : Prop where
  prepareFee : ∀ op c r, E.prepareFee op c r ≠ .error .stackOverflow
  payFee : ∀ op c r, E.payFee op c r ≠ .error .stackOverflow
  chargeFee : ∀ op c r, E.chargeFee op c r ≠ .error .stackOverflow
  apply : ∀ op proposed c r, E.apply op proposed c r ≠ .error .stackOverflow

/-- A handler catches what `x` throws. -/
abbrev Caught (x : ProposalM Key Other R Unit) : Prop := Raises (fun e => e ≠ ProposalError.stackOverflow) x

omit [LinearOrder Key] in
theorem caught_onRest {f : ChainProperties → R → Except ProposalError R}
    (hf : ∀ c r, f c r ≠ .error .stackOverflow) : Caught (onRest f : ProposalM Key Other R Unit) := by
  refine raises_bind raises_get fun s => raises_bind (raises_lift ?_) fun r => raises_update _
  rintro e he rfl
  exact hf _ _ he

omit [LinearOrder Key] in
theorem caught_removeProposal (id : ℕ) : Caught (removeProposal id : ProposalM Key Other R Unit) :=
  raises_bind raises_get fun _ => raises_bind (raises_require (by decide) _) fun _ => raises_update _

omit [LinearOrder Key] in
theorem caught_startEvaluate (hE : E.ThrowsExceptions) {op : Operation Key Other}
    {doEvaluate doApply : ProposalM Key Other R Unit} (hevaluate : Caught doEvaluate) (happly : Caught doApply) :
    Caught (startEvaluate E op doEvaluate doApply) := by
  refine raises_bind raises_get fun s => raises_bind (raises_lift ?_) fun _ => ?_
  · rintro e he rfl
    exact hE.prepareFee _ _ _ he
  · exact raises_bind hevaluate fun _ => raises_bind (caught_onRest (hE.payFee op)) fun _ =>
      raises_bind happly fun _ => caught_onRest (hE.chargeFee op)

theorem ProposalCreate.caught_doEvaluate (op : ProposalCreate (Operation Key Other)) :
    Caught (op.doEvaluate E) := by
  refine raises_bind raises_get fun s => raises_bind (raises_assert (by decide) _) fun _ =>
    raises_bind (raises_assert (by decide) _) fun _ => raises_bind (raises_assert (by decide) _) fun _ =>
    raises_bind (raises_assert (by decide) _) fun _ => raises_bind ?_ fun _ => raises_assert (by decide) _
  unfold checkCommittee
  split
  · exact raises_bind raises_get fun s => raises_bind (raises_require (by decide) _) fun _ =>
      raises_assert (by decide) _
  · exact raises_pure _

omit [LinearOrder Key] in
theorem ProposalDelete.caught_doEvaluate (op : ProposalDelete) :
    Caught (op.doEvaluate : ProposalM Key Other R Unit) :=
  raises_bind raises_get fun _ => raises_bind (raises_require (by decide) _) fun _ =>
    raises_assert (by decide) _

/-- An operation that may be proposed throws exceptions of the source only. -/
theorem caught_applyOperation (levels : ℕ) (hE : E.ThrowsExceptions) {op : Operation Key Other}
    (hop : op.Plain) :
    Caught (applyOperation E (levels + 1) true op) := by
  cases op with
  | proposalUpdate fee op => cases hop
  | other op => exact caught_onRest (hE.apply op true)
  | proposalCreate op => exact caught_startEvaluate hE op.caught_doEvaluate (raises_update _)
  | proposalDelete op => exact caught_startEvaluate hE op.caught_doEvaluate (caught_removeProposal _)

/-! ### What an execution comes to -/

/-- A proposal is taken out of the database after its execution. -/
def ProposalBooks.withoutExecuted (s : ProposalBooks Key Other R) (id : ℕ) : ProposalBooks Key Other R :=
  { s with
    proposals := s.proposals.erase id
    history := .executed id s.properties.headTime :: s.history }

/-- All operations of a proposal are committed, and the proposal is removed, which is there until then. -/
def Committed (E : Surroundings Key Other R) (levels id : ℕ) (p : ProposalObject Key (Operation Key Other))
    (s s' : ProposalBooks Key Other R) : Prop :=
  ∃ s₁, p.proposedOps.forM (applyOperation E (levels + 1) true) s = .ok () s₁ ∧ Alive id s₁ ∧
    s' = s₁.withoutExecuted id

/-- **`push_proposal`** commits, or throws and leaves the state as it was. -/
theorem push_cases (levels id : ℕ) (s : ProposalBooks Key Other R) (hE : E.ThrowsExceptions)
    {p : ProposalObject Key (Operation Key Other)} (hplain : ∀ op ∈ p.proposedOps, op.Plain) :
    (∃ s', pushProposal (applyOperation E (levels + 1) true) id p s = .ok () s' ∧
      Committed E levels id p s s') ∨
    ∃ e, e ≠ .stackOverflow ∧ pushProposal (applyOperation E (levels + 1) true) id p s = .error e s := by
  have hcaught : Caught (pushProposal (applyOperation E (levels + 1) true) id p) := by
    intro s e s' h
    have hremove : Caught (removeProposal id : ProposalM Key Other R Unit) := caught_removeProposal id
    have hbody := raises_bind (raises_forM_of_mem fun op hop => caught_applyOperation levels hE (hplain op hop))
      fun _ => raises_bind hremove fun _ => raises_update fun s =>
        { s with history := .executed id s.properties.headTime :: s.history }
    unfold pushProposal inSession at h
    split at h
    · cases h
    · next e' s₁ hthrown =>
      cases h
      exact hbody _ _ _ hthrown
  cases hpush : pushProposal (applyOperation E (levels + 1) true) id p s with
  | error e s' =>
    obtain rfl := inSession_eq_error hpush
    exact .inr ⟨e, hcaught _ _ _ hpush, rfl⟩
  | ok u s' =>
    refine .inl ⟨s', rfl, ?_⟩
    obtain ⟨_, s₁, hops, h⟩ := bind_eq_ok.mp (inSession_eq_ok.mp hpush)
    obtain ⟨_, s₂, hremove, h⟩ := bind_eq_ok.mp h
    obtain ⟨halive, rfl⟩ := removeProposal_ok hremove
    obtain rfl := update_eq_ok.mp h
    exact ⟨s₁, hops, halive, rfl⟩

omit [LinearOrder Key] in
/-- A handler goes on from the state before the session. -/
theorem onException_push {apply : Operation Key Other → ProposalM Key Other R Unit}
    {p : ProposalObject Key (Operation Key Other)} {handle : ProposalM Key Other R Unit} {e : ProposalError}
    (he : e ≠ .stackOverflow) (hpush : pushProposal apply id p s = .error e s) :
    onException (pushProposal apply id p) handle s = handle s := by
  unfold onException
  rw [tryCatch_apply, hpush]
  dsimp only
  rw [if_neg he]

omit [LinearOrder Key] in
theorem removeProposal_of_alive (hs : Alive id s) :
    removeProposal id s = .ok () { s with proposals := s.proposals.erase id } := by
  obtain ⟨p, hp⟩ := hs
  unfold removeProposal
  rw [get_bind]
  exact require_bind_eq_ok.mpr ⟨p, hp, rfl⟩

/-- What is to hold of the execution of a proposal in a state, wherever it comes from. -/
structure PushedOnce (E : Surroundings Key Other R) (levels id : ℕ)
    (p : ProposalObject Key (Operation Key Other)) (s : ProposalBooks Key Other R) : Prop where
  /-- The proposal is never read or removed after it has been removed. -/
  there : ThereThroughout E levels id p s
  /-- It has not been executed before. -/
  unexecuted : ∀ time, .executed id time ∉ s.history
  /-- By `push_proposal`. -/
  pushed : (∃ s', pushProposal (applyOperation E (levels + 1) true) id p s = .ok () s' ∧
      Committed E levels id p s s') ∨
    ∃ e, pushProposal (applyOperation E (levels + 1) true) id p s = .error e s
  /-- From `proposal_update`, when the approvals have been changed. -/
  updated : ∀ op : ProposalUpdate Key, op.proposal = id →
    ∃ s', op.execute E (applyOperation E (levels + 1) true) s = .ok () s' ∧
      (Committed E levels id p s s' ∨ s' = s)
  /-- From `clear_expired_proposals`, which removes the proposal if the execution fails. -/
  expired : ∃ s', finishProposal E (levels + 1) id p s = .ok () s' ∧
    (Committed E levels id p s s' ∨ s' = { s with proposals := s.proposals.erase id })

/-- The states in which `clear_expired_proposals` looks for an expired proposal. -/
def Rounds (E : Surroundings Key Other R) (levels : ℕ) (s s' : ProposalBooks Key Other R) : Prop :=
  ∃ rounds, clearProposals E (levels + 1) rounds s = .ok () s'

/-- Executions are as they should be, in a state and in all rounds of `clear_expired_proposals` from there on,
which ends and leaves no expired proposal. -/
structure ExecutedOnce (E : Surroundings Key Other R) (levels : ℕ) (s : ProposalBooks Key Other R) : Prop where
  once : ∀ s₁, Rounds E levels s s₁ → ∀ id p, s₁.proposals.lookup id = some p → PushedOnce E levels id p s₁
  cleared : ∃ s', clearExpiredProposals E (levels + 1) s = .ok () s' ∧
    ∀ id p, s'.proposals.lookup id = some p → s'.properties.headTime < p.expirationTime

theorem execute_returns (hE : E.ThrowsExceptions) {p : ProposalObject Key (Operation Key Other)}
    (hplain : ∀ op ∈ p.proposedOps, op.Plain) (hp : s.proposals.lookup id = some p) {op : ProposalUpdate Key}
    (hid : op.proposal = id) :
    ∃ s', op.execute E (applyOperation E (levels + 1) true) s = .ok () s' ∧
      (Committed E levels id p s s' ∨ s' = s) := by
  unfold ProposalUpdate.execute
  rw [get_bind, hid]
  by_cases hreview : p.reviewPeriodTime.isSome
  · exact ⟨s, require_bind_eq_ok.mpr ⟨p, hp, by rw [if_pos hreview]; rfl⟩, .inr rfl⟩
  by_cases hauthorized : p.isAuthorizedToExecute E s.properties s.rest = true
  swap
  · refine ⟨s, require_bind_eq_ok.mpr ⟨p, hp, ?_⟩, .inr rfl⟩
    rw [if_neg hreview, if_neg hauthorized]
    rfl
  rcases push_cases levels id s hE hplain with ⟨s', hpush, hcommitted⟩ | ⟨e, he, hpush⟩
  · refine ⟨s', require_bind_eq_ok.mpr ⟨p, hp, ?_⟩, .inl hcommitted⟩
    rw [if_neg hreview, if_pos hauthorized]
    exact tryCatch_eq_ok.mpr (.inl hpush)
  · refine ⟨s, require_bind_eq_ok.mpr ⟨p, hp, ?_⟩, .inr rfl⟩
    rw [if_neg hreview, if_pos hauthorized, onException_push he hpush]
    rfl

theorem finishProposal_returns (levels : ℕ) (hE : E.ThrowsExceptions) {p : ProposalObject Key (Operation Key Other)}
    (hplain : ∀ op ∈ p.proposedOps, op.Plain) (hp : s.proposals.lookup id = some p) :
    ∃ s', finishProposal E (levels + 1) id p s = .ok () s' ∧
      (Committed E levels id p s s' ∨ s' = { s with proposals := s.proposals.erase id }) := by
  unfold finishProposal
  rw [get_bind]
  split
  · rcases push_cases levels id s hE hplain with ⟨s', hpush, hcommitted⟩ | ⟨e, he, hpush⟩
    · exact ⟨s', tryCatch_eq_ok.mpr (.inl hpush), .inl hcommitted⟩
    · exact ⟨_, by rw [onException_push he hpush, removeProposal_of_alive ⟨p, hp⟩], .inr rfl⟩
  · exact ⟨_, removeProposal_of_alive ⟨p, hp⟩, .inr rfl⟩

/-- **The loop of `clear_expired_proposals` returns**, by induction on its rounds. -/
theorem clearProposals_returns (levels : ℕ) (hE : E.ThrowsExceptions) (fuel : ℕ) (hs : PlainProposals s) :
    ∃ s', clearProposals E (levels + 1) fuel s = .ok () s' := by
  induction fuel generalizing s with
  | zero => exact ⟨s, rfl⟩
  | succ fuel ih =>
    unfold clearProposals
    rw [get_bind]
    cases hfirst : s.firstExpired with
    | none => exact ⟨s, rfl⟩
    | some e =>
      obtain ⟨id, p⟩ := e
      obtain ⟨hp, hle⟩ := s.firstExpired_eq_some hfirst
      obtain ⟨s₁, hfinish, -⟩ := finishProposal_returns levels hE (hs id p hp) hp
      have hchanges : ProposalChanges E (fun _ _ _ => True) s s₁ := (finishProposal_ok hs hp hle hfinish).1
      obtain ⟨s', hrest⟩ := ih (hchanges.plain hs)
      exact ⟨s', bind_eq_ok.mpr ⟨(), s₁, hfinish, hrest⟩⟩

/-- **Exactly when proposals are executed once**, in every state that a run leads to, after whatever has
happened to proposals within an operation: no proposal is to contain its own deletion, such that this is reached
and accepted when the proposal is executed. -/
theorem executedOnce_iff {U : UpdateCondition Key Other} {s₀ : ProposalBooks Key Other R}
    (hE : E.ThrowsExceptions) (hnone : NoProposals s₀) (hrun : ProposalRun E U s₀ s')
    (hchanges : ProposalChanges E U s' s) :
    ExecutedOnce E levels s ↔
      ∀ s₁, Rounds E levels s s₁ → ∀ id p, s₁.proposals.lookup id = some p →
        ¬ DeletesItself E levels id p s₁ := by
  have hinv : ProposalInv E s := ProposalChanges.inv hchanges (hrun.inv hnone.inv)
  have hrounds : ∀ s₁, Rounds E levels s s₁ → ProposalInv E s₁ := by
    rintro s₁ ⟨rounds, hclear⟩
    exact ProposalChanges.inv (clearProposals_ok (U := U) hinv.plain hclear).1 hinv
  constructor
  · intro h s₁ hround id p hp
    exact (thereThroughout_iff ((hrounds s₁ hround).plain id p hp) hp).mp (h.once s₁ hround id p hp).there
  · intro hnot
    refine ⟨fun s₁ hround id p hp => ?_, ?_⟩
    · have hinv₁ := hrounds s₁ hround
      have hplain := hinv₁.plain id p hp
      refine ⟨(thereThroughout_iff hplain hp).mpr (hnot s₁ hround id p hp), fun time hmem => ?_, ?_,
        fun op hid => execute_returns hE hplain hp hid, finishProposal_returns levels hE hplain hp⟩
      · have hgone := (hinv₁.executed id time hmem).2
        rw [hp] at hgone
        cases hgone
      · rcases push_cases levels id s₁ hE hplain with hcommitted | ⟨e, -, hpush⟩
        · exact .inl hcommitted
        · exact .inr ⟨e, hpush⟩
    · obtain ⟨s₁, hclear⟩ := clearProposals_returns levels hE s.proposals.entries.length hinv.plain
      have hcleared : clearExpiredProposals E (levels + 1) s = .ok () s₁ := hclear
      exact ⟨s₁, hcleared, (clearExpiredProposals_ok (U := U) hinv.plain hcleared).2⟩

theorem throwsExceptions_committee : committeeSurroundings.ThrowsExceptions where
  prepareFee _ _ _ := nofun
  payFee _ _ _ := nofun
  chargeFee _ _ _ := nofun
  apply _ _ _ _ := nofun

/-- The proposal to the committee is executed once, if it is. -/
theorem executedOnce_underReview :
    ExecutedOnce committeeSurroundings 1 (underReview [approve, propose]) := by
  have hrun := ProposalRun.approved (fun _ _ _ => True) fun _ _ _ => trivial
  refine (executedOnce_iff throwsExceptions_committee noProposals_emptyBooks hrun .refl).mpr ?_
  rintro s₁ ⟨rounds, hclear⟩ id p hp ⟨before, op, after, -, -, hops, -⟩
  -- it has not expired, so it is the only one there
  have hnone : (underReview [approve, propose]).firstExpired = none := by decide +kernel
  have hsame : s₁ = underReview [approve, propose] := by
    cases rounds with
    | zero => exact (pure_eq_ok.mp hclear).2.symm
    | succ rounds =>
      unfold clearProposals at hclear
      rw [get_bind, hnone] at hclear
      exact (pure_eq_ok.mp hclear).2.symm
  rw [hsame] at hp
  have hmem := Index.mem_entries_of_lookup hp
  have hentries : (underReview [approve, propose]).proposals.entries.map (fun e => e.2.proposedOps) =
      [[.other ()]] := rfl
  have hother : p.proposedOps ∈ [[(.other () : Operation ℕ Unit)]] := by
    rw [← hentries]
    exact List.mem_map_of_mem hmem
  rw [List.mem_singleton.mp hother] at hops
  cases before with
  | nil => cases hops
  | cons op' before => simp at hops

/-- A proposal to delete the first proposal, which it is itself. -/
private def proposeDeletion : Operation ℕ Unit := .proposalCreate
  { fee := ⟨0, 0⟩
    feePayingAccount := 10
    proposedOps := [.proposalDelete { feePayingAccount := 10, fee := ⟨0, 0⟩, proposal := 0 }]
    expirationTime := 2000
    reviewPeriodSeconds := some 500 }

/-- Its author approves. -/
private def approveDeletion : Operation ℕ Unit := .proposalUpdate ⟨0, 0⟩
  { feePayingAccount := 10, proposal := 0, activeApprovalsToAdd := {10} }

/-- It expires. -/
private def deletionExpired : ProposalBooks ℕ Unit Unit :=
  { afterOperations emptyBooks [approveDeletion, proposeDeletion] with properties := ⟨2000, 10000, 100, 2⟩ }

/-- **A proposal deletes itself** when it has expired and is executed. -/
theorem not_executedOnce :
    ∃ s, ProposalRun committeeSurroundings (fun _ _ _ => True) emptyBooks s ∧
      (∃ p, s.firstExpired = some (0, p) ∧
        p.isAuthorizedToExecute committeeSurroundings s.properties s.rest = true) ∧
      ¬ ExecutedOnce committeeSurroundings 1 s := by
  have hpropose : ProposalRun committeeSurroundings (fun _ _ _ => True) emptyBooks
      (afterOperations emptyBooks [proposeDeletion]) :=
    .afterOperations [] _ (.refl _) (by decide +kernel) (fun _ _ _ => trivial) (by decide +kernel)
  have happrove := hpropose.afterOperations [proposeDeletion] approveDeletion (by decide +kernel)
    (fun _ _ _ => trivial) (by decide +kernel)
  have hlater : (afterOperations emptyBooks [approveDeletion, proposeDeletion]).properties.headTime < 2000 := by
    decide +kernel
  refine ⟨deletionExpired, happrove.block hlater, ⟨_, rfl, by decide +kernel⟩, fun h => ?_⟩
  have hpushed := h.once deletionExpired ⟨0, rfl⟩ 0 _ rfl
  obtain ⟨-, hnext⟩ := hpushed.there [] _ deletionExpired rfl rfl
  obtain ⟨p, hp⟩ := hnext _ rfl _ rfl
  cases hp

end FinChain.Chain
