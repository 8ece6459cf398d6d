import FinChain.Chain.Proposals
import Mathlib.Logic.Relation

/-!
# What can happen to a proposal

Whatever is done to proposals is a sequence of five changes (`ProposalChange`): one is created, updated,
removed or executed, or the rest of the state changes. For a creation, an update and an execution the
change says what was checked. The operations of a proposal are applied by the same code that applies
those of a transaction, but an update is not among them: it asks for the signatures of keys, and a
proposal that asks for such is not created (`plain_of_other`). So an execution leads to no other one,
and the changes of a proposal are found without looking deeper.
-/

namespace FinChain.Chain

open Exec Ledger FinChain.Protocol

variable {Key Other R : Type} {E : Surroundings Key Other R}

/-! ### Statements -/

section Statements

variable {s s' : ProposalBooks Key Other R} {u : Unit}

theorem onRest_ok {f : ChainProperties → R → Except ProposalError R}
    (h : (onRest f : ProposalM Key Other R Unit) s = .ok u s') : ∃ r, s' = { s with rest := r } := by
  unfold onRest at h
  rw [get_bind] at h
  obtain ⟨r, -, h⟩ := lift_bind_eq_ok.mp h
  obtain rfl := update_eq_ok.mp h
  exact ⟨r, rfl⟩

theorem removeProposal_ok {id : ℕ} (h : removeProposal id s = .ok u s') :
    (∃ p, s.proposals.lookup id = some p) ∧ s' = { s with proposals := s.proposals.erase id } := by
  unfold removeProposal at h
  rw [get_bind] at h
  obtain ⟨p, hp, h⟩ := require_bind_eq_ok.mp h
  exact ⟨⟨p, hp⟩, update_eq_ok.mp h⟩

theorem inSession_eq_ok {α : Type} {x : ProposalM Key Other R α} {a : α} :
    inSession x s = .ok a s' ↔ x s = .ok a s' := by
  unfold inSession
  cases x s with
  | ok a' s₁ => exact Iff.rfl
  | error e s₁ =>
    refine ⟨fun h => ?_, fun h => ?_⟩
    · cases h
    · cases h

/-- What throws in a session has changed nothing. -/
theorem inSession_eq_error {α : Type} {x : ProposalM Key Other R α} {e : ProposalError}
    (h : inSession x s = .error e s') : s' = s := by
  unfold inSession at h
  cases hx : x s with
  | ok a s₁ =>
    rw [hx] at h
    cases h
  | error e' s₁ =>
    rw [hx] at h
    cases h
    rfl

/-- A session that is abandoned leaves the handler the state before it. -/
theorem onException_ok {x : ProposalM Key Other R Unit} {handle : ProposalM Key Other R Unit}
    (h : onException (inSession x) handle s = .ok u s') :
    x s = .ok u s' ∨ handle s = .ok u s' := by
  unfold onException at h
  rcases tryCatch_eq_ok.mp h with hx | ⟨e, s₁, hx, hhandle⟩
  · exact .inl (inSession_eq_ok.mp hx)
  · obtain rfl := inSession_eq_error hx
    split at hhandle
    · cases hhandle
    · exact .inr hhandle

/-- The parts of an evaluator. Fees change the rest of the state only. -/
theorem startEvaluate_ok {op : Operation Key Other} {doEvaluate doApply : ProposalM Key Other R Unit}
    (hread : ∀ {s s₁ : ProposalBooks Key Other R} {u}, doEvaluate s = .ok u s₁ → s₁ = s)
    (h : startEvaluate E op doEvaluate doApply s = .ok u s') :
    ∃ r r' s₁, doEvaluate s = .ok () s ∧ doApply { s with rest := r } = .ok () s₁ ∧
      s' = { s₁ with rest := r' } := by
  unfold startEvaluate at h
  rw [get_bind] at h
  obtain ⟨_, -, h⟩ := lift_bind_eq_ok.mp h
  obtain ⟨_, s₂, hevaluate, h⟩ := bind_eq_ok.mp h
  have hsame : s₂ = s := hread hevaluate
  rw [hsame] at hevaluate h
  obtain ⟨_, s₃, hpay, h⟩ := bind_eq_ok.mp h
  obtain ⟨r, rfl⟩ := onRest_ok hpay
  obtain ⟨_, s₄, happly, h⟩ := bind_eq_ok.mp h
  obtain ⟨r', rfl⟩ := onRest_ok h
  exact ⟨r, r', s₄, hevaluate, happly, rfl⟩

theorem ProposalDelete.doEvaluate_read {op : ProposalDelete}
    (h : (op.doEvaluate : ProposalM Key Other R Unit) s = .ok u s') : s' = s := by
  unfold doEvaluate at h
  rw [get_bind] at h
  obtain ⟨p, -, h⟩ := require_bind_eq_ok.mp h
  exact (assert_eq_ok.mp h).2

theorem ProposalUpdate.doEvaluate_ok {op : ProposalUpdate Key}
    (h : (op.doEvaluate : ProposalM Key Other R Unit) s = .ok u s') :
    s' = s ∧ ∃ p, s.proposals.lookup op.proposal = some p ∧
      (p.InReview s.properties.headTime →
        op.activeApprovalsToAdd = ∅ ∧ op.ownerApprovalsToAdd = ∅) := by
  unfold doEvaluate at h
  rw [get_bind] at h
  obtain ⟨p, hp, h⟩ := require_bind_eq_ok.mp h
  obtain ⟨hreview, h⟩ := assert_bind_eq_ok.mp h
  obtain ⟨-, h⟩ := assert_bind_eq_ok.mp h
  exact ⟨(assert_eq_ok.mp h).2, p, hp, hreview⟩

end Statements

/-- What is fixed when a proposal is created. -/
structure SameProposal (p p' : ProposalObject Key (Operation Key Other)) : Prop where
  expirationTime : p'.expirationTime = p.expirationTime
  reviewPeriodTime : p'.reviewPeriodTime = p.reviewPeriodTime
  proposedOps : p'.proposedOps = p.proposedOps

theorem SameProposal.refl (p : ProposalObject Key (Operation Key Other)) : SameProposal p p :=
  ⟨rfl, rfl, rfl⟩

theorem SameProposal.trans {p₁ p₂ p₃ : ProposalObject Key (Operation Key Other)}
    (h : SameProposal p₁ p₂) (h' : SameProposal p₂ p₃) : SameProposal p₁ p₃ where
  expirationTime := h'.expirationTime.trans h.expirationTime
  reviewPeriodTime := h'.reviewPeriodTime.trans h.reviewPeriodTime
  proposedOps := h'.proposedOps.trans h.proposedOps

variable [LinearOrder Key]

/-! ### Operations that may be proposed -/

/-- The operation does not update a proposal. -/
def Operation.Plain : Operation Key Other → Prop
  | .proposalUpdate _ _ => False
  | _ => True

theorem other_requiredOf (ops : List (Operation Key Other)) (r : Required Key) :
    (ops.foldl (fun r op => r.add (op.requiredAuthorities E)) r).other =
      r.other ++ ops.flatMap fun op => (op.requiredAuthorities E).other := by
  induction ops generalizing r with
  | nil => exact (List.append_nil _).symm
  | cons op ops ih =>
    rw [List.foldl_cons, ih, List.flatMap_cons]
    exact List.append_assoc _ _ _

/-- **Updates cannot be proposed**, since they ask for the signatures of keys. -/
theorem plain_of_other {ops : List (Operation Key Other)} (h : (requiredOf E ops).other = []) :
    ∀ op ∈ ops, op.Plain := by
  intro op hop
  unfold requiredOf at h
  rw [other_requiredOf, List.append_eq_nil_iff, List.flatMap_eq_nil_iff] at h
  have hother := h.2 op hop
  cases op with
  | proposalUpdate fee op => cases hother
  | other | proposalCreate | proposalDelete => trivial

/-! ### Changes -/

/-- What `proposal_create_evaluator` has checked. -/
structure ProposalCreate.Allowed (E : Surroundings Key Other R)
    (op : ProposalCreate (Operation Key Other)) (properties : ChainProperties) : Prop where
  unexpired : properties.headTime < op.expirationTime
  review : ∀ seconds, op.reviewPeriodSeconds = some seconds →
    seconds < op.expirationTime - properties.headTime
  other : (requiredOf E op.proposedOps).other = []
  committee : committeeAccount ∈
      (requiredOf E op.proposedOps).active ∪ (requiredOf E op.proposedOps).owner →
    ∃ seconds, op.reviewPeriodSeconds = some seconds ∧
      properties.committeeProposalReviewPeriod ≤ seconds

/-- A condition on the updates of proposals. -/
abbrev UpdateCondition (Key Other : Type) :=
  ChainProperties → Index (ProposalObject Key (Operation Key Other)) → ProposalUpdate Key → Prop

/-- What can happen to proposals, when updates meet the condition `U`. -/
inductive ProposalChange (E : Surroundings Key Other R) (U : UpdateCondition Key Other) :
    ProposalBooks Key Other R → ProposalBooks Key Other R → Prop
  | rest {s : ProposalBooks Key Other R} (r : R) : ProposalChange E U s { s with rest := r }
  | create {s : ProposalBooks Key Other R} {op : ProposalCreate (Operation Key Other)}
      (h : op.Allowed E s.properties) :
      ProposalChange E U s
        { s with
          proposals := s.proposals.create (op.proposal E)
          history :=
            .created s.proposals.next s.properties.committeeProposalReviewPeriod :: s.history }
  | update {s : ProposalBooks Key Other R} {op : ProposalUpdate Key}
      {p : ProposalObject Key (Operation Key Other)} (hU : U s.properties s.proposals op)
      (hp : s.proposals.lookup op.proposal = some p)
      (hreview : p.InReview s.properties.headTime →
        op.activeApprovalsToAdd = ∅ ∧ op.ownerApprovalsToAdd = ∅) :
      ProposalChange E U s { s with proposals := s.proposals.modify op.proposal op.modify }
  | remove {s : ProposalBooks Key Other R} (id : ℕ) :
      ProposalChange E U s { s with proposals := s.proposals.erase id }
  | execute {s : ProposalBooks Key Other R} {id : ℕ} {p : ProposalObject Key (Operation Key Other)}
      (hp : s.proposals.lookup id = some p)
      (hdue : p.reviewPeriodTime ≠ none → p.expirationTime ≤ s.properties.headTime) :
      ProposalChange E U s
        { s with
          proposals := s.proposals.erase id
          history := .executed id s.properties.headTime :: s.history }

/-- Changes one after the other. -/
abbrev ProposalChanges (E : Surroundings Key Other R) (U : UpdateCondition Key Other) :
    ProposalBooks Key Other R → ProposalBooks Key Other R → Prop :=
  Relation.ReflTransGen (ProposalChange E U)

variable {U : UpdateCondition Key Other} {s s₁ s' : ProposalBooks Key Other R} {u : Unit}

theorem changesFrame : Frame (ProposalChanges E U) where
  refl _ := .refl
  trans := .trans

theorem ProposalUpdate.same_modify (op : ProposalUpdate Key)
    (p : ProposalObject Key (Operation Key Other)) : SameProposal p (op.modify p) :=
  ⟨rfl, rfl, rfl⟩

/-- Where a proposal comes from: it was there before, or it was created under a new id. -/
theorem ProposalChange.lookup (h : ProposalChange E U s s') {id : ℕ}
    {p' : ProposalObject Key (Operation Key Other)} (hp' : s'.proposals.lookup id = some p') :
    (∃ p, s.proposals.lookup id = some p ∧ SameProposal p p') ∨
      (id = s.proposals.next ∧ ∃ op : ProposalCreate (Operation Key Other),
        op.Allowed E s.properties ∧ p' = op.proposal E ∧
        .created id s.properties.committeeProposalReviewPeriod ∈ s'.history) := by
  cases h with
  | rest => exact .inl ⟨p', hp', .refl p'⟩
  | @create op hallowed =>
    change (s.proposals.create (op.proposal E)).lookup id = some p' at hp'
    rw [Index.lookup_create] at hp'
    split at hp'
    · next hid =>
      cases hp'
      refine .inr ⟨hid, op, hallowed, rfl, ?_⟩
      rw [hid]
      exact List.mem_cons_self
    · exact .inl ⟨p', hp', .refl p'⟩
  | @update op p _ hp _ =>
    change (s.proposals.modify op.proposal op.modify).lookup id = some p' at hp'
    rw [Index.lookup_modify] at hp'
    split at hp'
    · next hid =>
      rw [hp] at hp'
      cases hp'
      rw [hid]
      exact .inl ⟨p, hp, op.same_modify p⟩
    · exact .inl ⟨p', hp', .refl p'⟩
  | remove id' =>
    change (s.proposals.erase id').lookup id = some p' at hp'
    rw [Index.lookup_erase] at hp'
    split at hp'
    · cases hp'
    · exact .inl ⟨p', hp', .refl p'⟩
  | @execute id' p hp hdue =>
    change (s.proposals.erase id').lookup id = some p' at hp'
    rw [Index.lookup_erase] at hp'
    split at hp'
    · cases hp'
    · exact .inl ⟨p', hp', .refl p'⟩

theorem ProposalChange.properties (h : ProposalChange E U s s') : s'.properties = s.properties := by
  cases h with
  | rest | create | update | remove | execute => rfl

theorem ProposalChange.next_le (h : ProposalChange E U s s') : s.proposals.next ≤ s'.proposals.next := by
  cases h with
  | create => exact Nat.le_succ _
  | rest | update | remove | execute => exact le_refl _

theorem ProposalChanges.properties (h : ProposalChanges E U s s') : s'.properties = s.properties := by
  induction h with
  | refl => rfl
  | tail _ hstep ih => exact hstep.properties.trans ih

theorem ProposalChanges.next_le (h : ProposalChanges E U s s') :
    s.proposals.next ≤ s'.proposals.next := by
  induction h with
  | refl => exact le_refl _
  | tail _ hstep ih => exact ih.trans hstep.next_le

/-- A proposal with an old id was there before. -/
theorem ProposalChanges.same (h : ProposalChanges E U s s') {id : ℕ}
    {p p' : ProposalObject Key (Operation Key Other)} (hp : s.proposals.lookup id = some p)
    (hp' : s'.proposals.lookup id = some p') : SameProposal p p' := by
  have hold : id < s.proposals.next :=
    s.proposals.fresh id (AList.lookup_isSome.mp (by rw [← Index.lookup, hp]; rfl))
  induction h generalizing p' with
  | refl =>
    rw [hp] at hp'
    cases hp'
    exact .refl p
  | tail hsteps hstep ih =>
    rcases hstep.lookup hp' with ⟨p₁, hp₁, hsame⟩ | ⟨hnew, -⟩
    · exact (ih hp₁).trans hsame
    · exact absurd (hnew ▸ hold) (Nat.not_lt.mpr (ProposalChanges.next_le hsteps))

theorem changes_onRest (f : ChainProperties → R → Except ProposalError R) :
    KeepsOk (ProposalChanges E U) (onRest f : ProposalM Key Other R Unit) :=
  changesFrame.keepsOk_get_bind fun _ => changesFrame.keepsOk_lift_bind fun r =>
    keepsOk_update fun _ => .single (.rest r)

theorem changes_removeProposal (id : ℕ) :
    KeepsOk (ProposalChanges E U) (removeProposal id : ProposalM Key Other R Unit) := by
  intro s u s' h
  obtain ⟨-, rfl⟩ := removeProposal_ok h
  exact .single (.remove id)

/-! ### Operations -/

theorem ProposalCreate.doEvaluate_ok {op : ProposalCreate (Operation Key Other)}
    (h : op.doEvaluate E s = .ok u s₁) : s₁ = s ∧ op.Allowed E s.properties := by
  unfold doEvaluate at h
  rw [get_bind] at h
  obtain ⟨hunexpired, h⟩ := assert_bind_eq_ok.mp h
  obtain ⟨-, h⟩ := assert_bind_eq_ok.mp h
  obtain ⟨hreview, h⟩ := assert_bind_eq_ok.mp h
  obtain ⟨hother, h⟩ := assert_bind_eq_ok.mp h
  obtain ⟨_, s₂, hcommittee, h⟩ := bind_eq_ok.mp h
  have hread : s₁ = s₂ := (assert_eq_ok.mp h).2
  unfold checkCommittee at hcommittee
  split at hcommittee
  · rw [get_bind] at hcommittee
    obtain ⟨seconds, hseconds, hcommittee⟩ := require_bind_eq_ok.mp hcommittee
    obtain ⟨hle, hsame⟩ := assert_eq_ok.mp hcommittee
    exact ⟨hread.trans hsame, hunexpired, hreview, List.isEmpty_iff.mp hother,
      fun _ => ⟨seconds, hseconds, hle⟩⟩
  · next hnone =>
    obtain ⟨-, hsame⟩ := pure_eq_ok.mp hcommittee
    exact ⟨hread.trans hsame.symm, hunexpired, hreview, List.isEmpty_iff.mp hother,
      fun h => absurd h hnone⟩

/-- **An operation that may be proposed.** -/
theorem changes_plain {op : Operation Key Other} (hop : op.Plain) (levels : ℕ) (proposed : Bool) :
    KeepsOk (ProposalChanges E U) (applyOperation E levels proposed op) := by
  intro s u s' h
  cases levels with
  | zero => cases h
  | succ levels =>
    cases op with
    | proposalUpdate fee op => cases hop
    | other op => exact changes_onRest _ s u s' h
    | proposalCreate op =>
      obtain ⟨r, r', s₁, hevaluate, happly, rfl⟩ :=
        startEvaluate_ok (fun h => (ProposalCreate.doEvaluate_ok h).1) h
      obtain ⟨-, hallowed⟩ := ProposalCreate.doEvaluate_ok hevaluate
      obtain rfl := update_eq_ok.mp happly
      have hpaid : ProposalChanges E U s { s with rest := r } := .single (.rest r)
      exact (hpaid.tail (.create hallowed)).tail (.rest r')
    | proposalDelete op =>
      obtain ⟨r, r', s₁, -, happly, rfl⟩ := startEvaluate_ok ProposalDelete.doEvaluate_read h
      have hpaid : ProposalChanges E U s { s with rest := r } := .single (.rest r)
      exact (hpaid.trans (changes_removeProposal _ _ _ _ happly)).tail (.rest r')

/-! ### Executions -/

/-- No proposal contains an update of a proposal. -/
def PlainProposals (s : ProposalBooks Key Other R) : Prop :=
  ∀ id p, s.proposals.lookup id = some p → ∀ op ∈ p.proposedOps, op.Plain

theorem ProposalChange.plain (h : ProposalChange E U s s') (hs : PlainProposals s) :
    PlainProposals s' := by
  intro id p' hp'
  rcases h.lookup hp' with ⟨p, hp, hsame⟩ | ⟨-, op, hallowed, rfl, -⟩
  · rw [hsame.proposedOps]
    exact hs id p hp
  · exact plain_of_other hallowed.other

theorem ProposalChanges.plain (h : ProposalChanges E U s s') (hs : PlainProposals s) :
    PlainProposals s' := by
  induction h with
  | refl => exact hs
  | tail _ hstep ih => exact hstep.plain ih

/-- **`push_proposal`**: the changes of the operations, and then the proposal is executed. -/
theorem changes_push {levels id : ℕ} {p : ProposalObject Key (Operation Key Other)}
    (hplain : ∀ op ∈ p.proposedOps, op.Plain) (hp : s.proposals.lookup id = some p)
    (hdue : p.reviewPeriodTime ≠ none → p.expirationTime ≤ s.properties.headTime)
    (h : pushProposal (applyOperation E levels true) id p s = .ok u s') :
    ProposalChanges E U s s' ∧ s'.proposals.lookup id = none := by
  unfold pushProposal at h
  obtain ⟨_, s₁, hops, h⟩ := bind_eq_ok.mp (inSession_eq_ok.mp h)
  obtain ⟨_, s₂, hremove, h⟩ := bind_eq_ok.mp h
  obtain ⟨⟨p₁, hp₁⟩, rfl⟩ := removeProposal_ok hremove
  obtain rfl := update_eq_ok.mp h
  have hchanges : ProposalChanges E U s s₁ :=
    changesFrame.keepsOk_forM_of_mem (fun op hop => changes_plain (hplain op hop) _ _) _ _ _ hops
  -- the proposal that is removed is the one that was pushed
  have hsame : SameProposal p p₁ := hchanges.same hp hp₁
  have hdue₁ : p₁.reviewPeriodTime ≠ none → p₁.expirationTime ≤ s₁.properties.headTime := by
    rw [hsame.reviewPeriodTime, hsame.expirationTime, hchanges.properties]
    exact hdue
  refine ⟨hchanges.tail (.execute hp₁ hdue₁), ?_⟩
  change (s₁.proposals.erase id).lookup id = none
  rw [Index.lookup_erase, if_pos rfl]

theorem ProposalUpdate.changes_execute {levels : ℕ} {op : ProposalUpdate Key} (hs : PlainProposals s)
    (h : op.execute E (applyOperation E levels true) s = .ok u s') : ProposalChanges E U s s' := by
  unfold execute at h
  rw [get_bind] at h
  obtain ⟨p, hp, h⟩ := require_bind_eq_ok.mp h
  split at h
  · obtain ⟨-, rfl⟩ := pure_eq_ok.mp h
    exact .refl
  · next hreview =>
    split at h
    · rcases onException_ok h with hpush | hnone
      · -- there is no review period
        have hdue : p.reviewPeriodTime ≠ none → p.expirationTime ≤ s.properties.headTime :=
          fun hne => absurd (Option.isSome_iff_ne_none.mpr hne) hreview
        exact (changes_push (hs _ p hp) hp hdue (inSession_eq_ok.mpr hpush)).1
      · obtain ⟨-, rfl⟩ := pure_eq_ok.mp hnone
        exact .refl
    · obtain ⟨-, rfl⟩ := pure_eq_ok.mp h
      exact .refl

/-- **An operation of a transaction**: if it is an update, it meets the condition. -/
theorem changes_applyOperation {levels : ℕ} {proposed : Bool} {op : Operation Key Other}
    (hs : PlainProposals s)
    (hU : ∀ fee update, op = .proposalUpdate fee update → U s.properties s.proposals update)
    (h : applyOperation E levels proposed op s = .ok u s') : ProposalChanges E U s s' := by
  by_cases hop : op.Plain
  · exact changes_plain hop _ _ _ _ _ h
  cases levels with
  | zero => cases h
  | succ levels =>
    cases op with
    | other | proposalCreate | proposalDelete => exact absurd trivial hop
    | proposalUpdate fee op =>
      obtain ⟨r, r', s₁, hevaluate, happly, rfl⟩ :=
        startEvaluate_ok (fun h => (ProposalUpdate.doEvaluate_ok h).1) h
      obtain ⟨-, p, hp, hreview⟩ := ProposalUpdate.doEvaluate_ok hevaluate
      obtain ⟨_, s₂, hmodify, hexecute⟩ := bind_eq_ok.mp happly
      obtain rfl := update_eq_ok.mp hmodify
      have hpaid : ProposalChanges E U s { s with rest := r } := .single (.rest r)
      have hupdated := hpaid.tail (.update (hU fee op rfl) hp hreview)
      have hplain := ProposalChanges.plain hupdated hs
      exact (hupdated.trans (ProposalUpdate.changes_execute hplain hexecute)).tail (.rest r')

end FinChain.Chain
