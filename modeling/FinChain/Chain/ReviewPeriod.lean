import FinChain.Chain.ExpiredProposals

/-!
# The review period

A run of proposals is made of accepted operations, of blocks with a later time, of rounds of
`clear_expired_proposals`, and of whatever changes the parameters and the rest of the state. A proposal
with a review period should be safe from the beginning of the period on: approvals can be taken away
from it, but none can be added, and it is executed only when it expires. The committee gets a review
period whenever its authority is asked for.

All of this holds but for the approvals of keys. `proposal_update_evaluator` looks at the accounts that
an update adds, and at nothing else (`ProposalUpdate.doEvaluate`). So in the review period an update may
still add keys, unless they are there already (`KeysKept`), and with them a proposal can be approved that
was not when the review began.
-/

namespace FinChain.Chain

open Exec Ledger FinChain.Protocol

variable {Key Other R : Type} [LinearOrder Key] {E : Surroundings Key Other R}

/-! ### Runs -/

/-- A run in which the updates of proposals meet the condition `U`. -/
inductive ProposalRun (E : Surroundings Key Other R) (U : UpdateCondition Key Other) :
    ProposalBooks Key Other R → ProposalBooks Key Other R → Prop
  | refl (s : ProposalBooks Key Other R) : ProposalRun E U s s
  /-- An operation of a transaction. -/
  | operation {s s₁ s₂ : ProposalBooks Key Other R} {levels : ℕ} {op : Operation Key Other}
      (hs : ProposalRun E U s s₁) (hvalid : op.validate E = true)
      (hU : ∀ fee update, op = .proposalUpdate fee update → U s₁.properties s₁.proposals update)
      (h : applyOperation E levels false op s₁ = .ok () s₂) : ProposalRun E U s s₂
  /-- The head of the chain is a new block. -/
  | block {s s₁ : ProposalBooks Key Other R} {time : ℕ} (hs : ProposalRun E U s s₁)
      (htime : s₁.properties.headTime < time) :
      ProposalRun E U s { s₁ with properties := { s₁.properties with headTime := time } }
  | clearExpired {s s₁ s₂ : ProposalBooks Key Other R} {levels : ℕ} (hs : ProposalRun E U s s₁)
      (h : clearExpiredProposals E levels s₁ = .ok () s₂) : ProposalRun E U s s₂
  /-- A maintenance, or anything else that does not concern proposals. -/
  | rest {s s₁ : ProposalBooks Key Other R} {properties : ChainProperties} (r : R)
      (hs : ProposalRun E U s s₁) (htime : properties.headTime = s₁.properties.headTime) :
      ProposalRun E U s { s₁ with properties := properties, rest := r }

/-- There are no proposals yet. -/
structure NoProposals (s : ProposalBooks Key Other R) : Prop where
  proposals : s.proposals = .empty
  history : s.history = []

/-- The proposal needs the authority of the committee. -/
def ProposalObject.NeedsCommittee (E : Surroundings Key Other R)
    (p : ProposalObject Key (Operation Key Other)) : Prop :=
  committeeAccount ∈ (requiredOf E p.proposedOps).active ∪ (requiredOf E p.proposedOps).owner

/-- The review period is as long as the committee required when the proposal was created. -/
def Reviewed (s : ProposalBooks Key Other R) (id : ℕ) (p : ProposalObject Key (Operation Key Other)) :
    Prop :=
  ∃ time period, p.reviewPeriodTime = some time ∧ .created id period ∈ s.history ∧
    time + period ≤ p.expirationTime

/-- What holds of all proposals in every run. -/
structure ProposalInv (E : Surroundings Key Other R) (s : ProposalBooks Key Other R) : Prop where
  plain : PlainProposals s
  committee : ∀ id p, s.proposals.lookup id = some p → p.NeedsCommittee E → Reviewed s id p
  /-- What was executed is gone for good. -/
  executed : ∀ id time, .executed id time ∈ s.history →
    id < s.proposals.next ∧ s.proposals.lookup id = none

variable {U : UpdateCondition Key Other} {s s₀ s₁ s' : ProposalBooks Key Other R}

theorem ProposalChange.history (h : ProposalChange E U s s') {event : ProposalEvent}
    (hevent : event ∈ s.history) : event ∈ s'.history := by
  cases h with
  | create | execute => exact List.mem_cons_of_mem _ hevent
  | rest | update | remove => exact hevent

/-- The proposal that is created for the committee is reviewed. -/
theorem ProposalCreate.Allowed.reviewed {op : ProposalCreate (Operation Key Other)}
    {properties : ChainProperties} (h : op.Allowed E properties)
    (hneeds : (op.proposal E).NeedsCommittee E) :
    ∃ time, (op.proposal E).reviewPeriodTime = some time ∧
      time + properties.committeeProposalReviewPeriod ≤ op.expirationTime := by
  obtain ⟨seconds, hseconds, hle⟩ := h.committee hneeds
  have hshort := h.review seconds hseconds
  refine ⟨timePointSec (op.expirationTime - seconds), ?_, ?_⟩
  · unfold proposal
    rw [hseconds]
    rfl
  · have hle' : timePointSec ((op.expirationTime - seconds : ℕ) : ℤ) ≤ op.expirationTime - seconds :=
      timePointSec_le _
    rw [Nat.cast_sub (by omega)] at hle'
    omega

/-- An id that was executed stays without a proposal. -/
theorem ProposalChange.executed (h : ProposalChange E U s s')
    (hs : ∀ id time, .executed id time ∈ s.history →
      id < s.proposals.next ∧ s.proposals.lookup id = none) :
    ∀ id time, .executed id time ∈ s'.history →
      id < s'.proposals.next ∧ s'.proposals.lookup id = none := by
  intro id time hexecuted
  -- an old id without a proposal gets none
  have hgone : id < s.proposals.next → s.proposals.lookup id = none →
      s'.proposals.lookup id = none := by
    intro hold hnone
    by_contra hne
    obtain ⟨p', hp'⟩ := Option.ne_none_iff_exists'.mp hne
    rcases h.lookup hp' with ⟨p, hp, -⟩ | ⟨hnew, -⟩
    · rw [hnone] at hp
      cases hp
    · exact absurd hold (by omega)
  have hkept : .executed id time ∈ s.history →
      id < s'.proposals.next ∧ s'.proposals.lookup id = none := fun hmem =>
    ⟨(hs id time hmem).1.trans_le h.next_le, hgone (hs id time hmem).1 (hs id time hmem).2⟩
  cases h with
  | rest | update | remove => exact hkept hexecuted
  | create => exact hkept (List.mem_of_ne_of_mem (by simp) hexecuted)
  | @execute id' p hp hdue =>
    rcases List.mem_cons.mp hexecuted with heq | hmem
    · cases heq
      refine ⟨s.proposals.fresh id (AList.lookup_isSome.mp (by rw [← Index.lookup, hp]; rfl)), ?_⟩
      change (s.proposals.erase id).lookup id = none
      rw [Index.lookup_erase, if_pos rfl]
    · exact hkept hmem

/-- **A change** keeps the invariant. -/
theorem ProposalChange.inv (h : ProposalChange E U s s') (hs : ProposalInv E s) : ProposalInv E s' := by
  refine ⟨h.plain hs.plain, ?_, h.executed hs.executed⟩
  intro id p' hp' hneeds
  rcases h.lookup hp' with ⟨p, hp, hsame⟩ | ⟨-, op, hallowed, rfl, hcreated⟩
  · have hneeds₀ : p.NeedsCommittee E := by
      unfold ProposalObject.NeedsCommittee at hneeds ⊢
      rwa [hsame.proposedOps] at hneeds
    obtain ⟨time, period, htime, hmem, hle⟩ := hs.committee id p hp hneeds₀
    refine ⟨time, period, hsame.reviewPeriodTime.trans htime, h.history hmem, ?_⟩
    rw [hsame.expirationTime]
    exact hle
  · obtain ⟨time, htime, hle⟩ := hallowed.reviewed hneeds
    exact ⟨time, _, htime, hcreated, hle⟩

theorem ProposalChanges.inv (h : ProposalChanges E U s s') (hs : ProposalInv E s) :
    ProposalInv E s' := by
  induction h with
  | refl => exact hs
  | tail _ hstep ih => exact hstep.inv ih

/-- **A run** keeps what its changes keep, as long as time may pass. -/
theorem ProposalRun.keep {I : ProposalBooks Key Other R → Prop} (hplain : ∀ {s}, I s → PlainProposals s)
    (hchange : ∀ {s s'}, ProposalChange E U s s' → I s → I s')
    (hrest : ∀ {s} properties r, s.properties.headTime ≤ properties.headTime → I s →
      I { s with properties := properties, rest := r })
    (h : ProposalRun E U s s') (hs : I s) : I s' := by
  have hchanges : ∀ {s s'}, ProposalChanges E U s s' → I s → I s' := by
    intro s s' h hs
    induction h with
    | refl => exact hs
    | tail _ hstep ih => exact hchange hstep ih
  induction h with
  | refl => exact hs
  | operation _ _ hU h ih => exact hchanges (changes_applyOperation (hplain ih) hU h) ih
  | block _ htime ih => exact hrest _ _ htime.le ih
  | clearExpired _ h ih => exact hchanges (clearExpiredProposals_ok (hplain ih) h).1 ih
  | rest r _ htime ih => exact hrest _ _ htime.ge ih

theorem NoProposals.inv (h : NoProposals s) : ProposalInv E s := by
  have hnone : ∀ id, s.proposals.lookup id = none := by
    intro id
    rw [h.proposals]
    rfl
  refine ⟨fun id p hp => ?_, fun id p hp => ?_, fun id time hmem => ?_⟩
  · rw [hnone] at hp
    cases hp
  · rw [hnone] at hp
    cases hp
  · rw [h.history] at hmem
    cases hmem

theorem ProposalRun.inv (h : ProposalRun E U s s') (hs : ProposalInv E s) : ProposalInv E s' :=
  h.keep ProposalInv.plain (fun hchange hs => hchange.inv hs)
    (fun _ _ _ hs => ⟨hs.plain, hs.committee, hs.executed⟩) hs

/-! ### One proposal -/

/-- The approvals have become fewer. -/
structure Shrunk (p p' : ProposalObject Key (Operation Key Other)) : Prop where
  active : p'.availableActiveApprovals ⊆ p.availableActiveApprovals
  owner : p'.availableOwnerApprovals ⊆ p.availableOwnerApprovals
  key : p'.availableKeyApprovals ⊆ p.availableKeyApprovals

/-- In the review period an update adds no keys that are not there. -/
def KeysKept : UpdateCondition Key Other := fun properties proposals op =>
  ∀ p, proposals.lookup op.proposal = some p → p.InReview properties.headTime →
    op.keyApprovalsToAdd ⊆ p.availableKeyApprovals

/-- What is known of a proposal since a certain time. -/
structure Watched (id : ℕ) (p : ProposalObject Key (Operation Key Other)) (now : ℕ)
    (s : ProposalBooks Key Other R) : Prop where
  time : now ≤ s.properties.headTime
  known : id < s.proposals.next
  current : ∀ p', s.proposals.lookup id = some p' →
    SameProposal p p' ∧ (p.InReview now → Shrunk p p')
  executed : p.reviewPeriodTime ≠ none → ∀ time, .executed id time ∈ s.history →
    p.expirationTime ≤ time

omit [LinearOrder Key] in
theorem Shrunk.refl (p : ProposalObject Key (Operation Key Other)) : Shrunk p p :=
  ⟨subset_refl _, subset_refl _, subset_refl _⟩

omit [LinearOrder Key] in
theorem Shrunk.trans {p₁ p₂ p₃ : ProposalObject Key (Operation Key Other)} (h : Shrunk p₁ p₂)
    (h' : Shrunk p₂ p₃) : Shrunk p₁ p₃ :=
  ⟨h'.active.trans h.active, h'.owner.trans h.owner, h'.key.trans h.key⟩

omit [LinearOrder Key] in
theorem SameProposal.inReview {p p' : ProposalObject Key (Operation Key Other)}
    (h : SameProposal p p') {now now' : ℕ} (hle : now ≤ now') (hp : p.InReview now) :
    p'.InReview now' := by
  obtain ⟨time, htime, hbegun⟩ := hp
  exact ⟨time, h.reviewPeriodTime.trans htime, hbegun.trans hle⟩

/-- **An update that adds nothing** takes approvals away. -/
theorem ProposalUpdate.shrunk_modify {op : ProposalUpdate Key}
    {p : ProposalObject Key (Operation Key Other)} (hactive : op.activeApprovalsToAdd = ∅)
    (howner : op.ownerApprovalsToAdd = ∅) (hkey : op.keyApprovalsToAdd ⊆ p.availableKeyApprovals) :
    Shrunk p (op.modify p) := by
  refine ⟨?_, ?_, ?_⟩
  · change (p.availableActiveApprovals ∪ op.activeApprovalsToAdd) \ op.activeApprovalsToRemove ⊆ _
    rw [hactive, Finset.union_empty]
    exact Finset.sdiff_subset
  · change (p.availableOwnerApprovals ∪ op.ownerApprovalsToAdd) \ op.ownerApprovalsToRemove ⊆ _
    rw [howner, Finset.union_empty]
    exact Finset.sdiff_subset
  · change (p.availableKeyApprovals ∪ op.keyApprovalsToAdd) \ op.keyApprovalsToRemove ⊆ _
    rw [Finset.union_eq_left.mpr hkey]
    exact Finset.sdiff_subset

/-- **A change** of a proposal that is watched. -/
theorem ProposalChange.watched (h : ProposalChange E KeysKept s s') {id now : ℕ}
    {p : ProposalObject Key (Operation Key Other)} (hs : Watched id p now s) : Watched id p now s' := by
  have hcurrent : ∀ p', s'.proposals.lookup id = some p' →
      SameProposal p p' ∧ (p.InReview now → Shrunk p p') := by
    intro p' hp'
    cases h with
    | rest => exact hs.current p' hp'
    | @create op _ =>
      change (s.proposals.create (op.proposal E)).lookup id = some p' at hp'
      rw [Index.lookup_create, if_neg hs.known.ne] at hp'
      exact hs.current p' hp'
    | @update op p₁ hkeys hp₁ hreview =>
      change (s.proposals.modify op.proposal op.modify).lookup id = some p' at hp'
      rw [Index.lookup_modify] at hp'
      split at hp'
      · next hid =>
        rw [hp₁] at hp'
        cases hp'
        rw [← hid] at hp₁
        obtain ⟨hsame, hshrunk⟩ := hs.current p₁ hp₁
        refine ⟨hsame.trans (op.same_modify p₁), fun hbegun => ?_⟩
        have hinReview := hsame.inReview hs.time hbegun
        obtain ⟨hactive, howner⟩ := hreview hinReview
        have hkey := hkeys p₁ (by rw [← hid]; exact hp₁) hinReview
        exact (hshrunk hbegun).trans (ProposalUpdate.shrunk_modify hactive howner hkey)
      · exact hs.current p' hp'
    | remove id' =>
      change (s.proposals.erase id').lookup id = some p' at hp'
      rw [Index.lookup_erase] at hp'
      split at hp'
      · cases hp'
      · exact hs.current p' hp'
    | @execute id' p₁ _ _ =>
      change (s.proposals.erase id').lookup id = some p' at hp'
      rw [Index.lookup_erase] at hp'
      split at hp'
      · cases hp'
      · exact hs.current p' hp'
  refine ⟨h.properties ▸ hs.time, hs.known.trans_le h.next_le, hcurrent, fun hne time hmem => ?_⟩
  cases h with
  | rest | update | remove => exact hs.executed hne time hmem
  | create => exact hs.executed hne time (List.mem_of_ne_of_mem (by simp) hmem)
  | @execute id' p₁ hp₁ hdue =>
    rcases List.mem_cons.mp hmem with heq | hmem
    · cases heq
      obtain ⟨hsame, -⟩ := hs.current p₁ hp₁
      rw [← hsame.expirationTime]
      exact hdue (by rwa [hsame.reviewPeriodTime])
    · exact hs.executed hne time hmem

/-! ### A proposal for the committee -/

/-- Nothing costs anything, and every other operation needs the committee. -/
def committeeSurroundings : Surroundings ℕ Unit Unit where
  validate _ := true
  requiredAuthorities _ := { active := {committeeAccount} }
  getActive _ _ := none
  getOwner _ _ := none
  prepareFee _ _ _ := .ok ()
  payFee _ _ r := .ok r
  chargeFee _ _ r := .ok r
  apply _ _ _ r := .ok r

/-- A chain without proposals. -/
def emptyBooks : ProposalBooks ℕ Unit Unit where
  properties := ⟨1000, 10000, 100, 2⟩
  proposals := .empty
  rest := ()

/-- Something is proposed to the committee, which has the time from 1500 to 2000 for its review. -/
def propose : Operation ℕ Unit := .proposalCreate
  { fee := ⟨0, 0⟩
    feePayingAccount := 10
    proposedOps := [.other ()]
    expirationTime := 2000
    reviewPeriodSeconds := some 500 }

/-- The committee approves. -/
def approve : Operation ℕ Unit := .proposalUpdate ⟨0, 0⟩
  { feePayingAccount := 10, proposal := 0, activeApprovalsToAdd := {committeeAccount} }

/-- The committee changes its mind. -/
def withdraw : Operation ℕ Unit := .proposalUpdate ⟨0, 0⟩
  { feePayingAccount := 10, proposal := 0, activeApprovalsToRemove := {committeeAccount} }

/-- Somebody adds a key. -/
def addKey : Operation ℕ Unit := .proposalUpdate ⟨0, 0⟩
  { feePayingAccount := 10, proposal := 0, keyApprovalsToAdd := {7} }

/-- The state after some operations. -/
def afterOperations (s : ProposalBooks ℕ Unit Unit) : List (Operation ℕ Unit) → ProposalBooks ℕ Unit Unit
  | [] => s
  | op :: ops =>
    final (applyOperation committeeSurroundings 2 false op) (afterOperations s ops)

/-- The review period begins. -/
def underReview (ops : List (Operation ℕ Unit)) : ProposalBooks ℕ Unit Unit :=
  { afterOperations emptyBooks ops with properties := ⟨1500, 10000, 100, 2⟩ }

theorem ProposalRun.afterOperations {U : UpdateCondition ℕ Unit} {s s₀ : ProposalBooks ℕ Unit Unit}
    (ops : List (Operation ℕ Unit)) (op : Operation ℕ Unit)
    (hs : ProposalRun committeeSurroundings U s₀ (afterOperations s ops))
    (hvalid : op.validate committeeSurroundings = true)
    (hU : ∀ fee update, op = .proposalUpdate fee update →
      U (Chain.afterOperations s ops).properties (Chain.afterOperations s ops).proposals update)
    (h : (applyOperation committeeSurroundings 2 false op).run' (Chain.afterOperations s ops) =
      some ()) :
    ProposalRun committeeSurroundings U s₀ (Chain.afterOperations s (op :: ops)) :=
  hs.operation hvalid hU (ok_final_of_run' h)

theorem noProposals_emptyBooks : NoProposals emptyBooks := ⟨rfl, rfl⟩

/-- The proposal waits for its review, approved by the committee. -/
theorem ProposalRun.approved (U : UpdateCondition ℕ Unit)
    (hU : ∀ fee update, approve = .proposalUpdate fee update →
      U (Chain.afterOperations emptyBooks [propose]).properties
        (Chain.afterOperations emptyBooks [propose]).proposals update) :
    ProposalRun committeeSurroundings U emptyBooks (underReview [approve, propose]) := by
  have hpropose : ProposalRun committeeSurroundings U emptyBooks
      (Chain.afterOperations emptyBooks [propose]) :=
    .afterOperations [] _ (.refl _) (by decide) (by rintro _ _ ⟨⟩)
      (by decide)
  have happrove := hpropose.afterOperations [propose] approve (by decide) hU
    (by decide)
  have hlater : (Chain.afterOperations emptyBooks [approve, propose]).properties.headTime < 1500 := by
    decide
  exact happrove.block hlater

/-! ### The review period -/

/-- **The review period**, in runs whose updates add no new keys to a proposal that is being reviewed:
from its beginning on the approvals only shrink, the proposal is not executed before it expires, and what
needs the committee has a review period of at least what the committee required at its creation. -/
theorem reviewPeriod_of_run (hnone : NoProposals s₀) (hbefore : ProposalRun E U s₀ s)
    (hrun : ProposalRun E KeysKept s s') (id : ℕ) {p : ProposalObject Key (Operation Key Other)}
    (hp : s.proposals.lookup id = some p) :
    (p.InReview s.properties.headTime → ∀ p', s'.proposals.lookup id = some p' → Shrunk p p') ∧
      (p.reviewPeriodTime ≠ none → ∀ time, .executed id time ∈ s'.history →
        p.expirationTime ≤ time) ∧
      (p.NeedsCommittee E → Reviewed s id p) := by
  have hinv : ProposalInv E s := hbefore.inv hnone.inv
  -- the proposal is there, so it has not been executed
  have hstart : PlainProposals s ∧ Watched id p s.properties.headTime s := by
    refine ⟨hinv.plain, le_refl _, ?_, ?_, ?_⟩
    · exact s.proposals.fresh id (AList.lookup_isSome.mp (by rw [← Index.lookup, hp]; rfl))
    · intro p' hp'
      rw [hp] at hp'
      cases hp'
      exact ⟨SameProposal.refl p, fun _ => Shrunk.refl p⟩
    · intro _ time hmem
      have hgone := (hinv.executed id time hmem).2
      rw [hp] at hgone
      cases hgone
  obtain ⟨-, hwatched⟩ := hrun.keep
    (I := fun s₁ => PlainProposals s₁ ∧ Watched id p s.properties.headTime s₁) (fun h => h.1)
    (fun hchange h => ⟨hchange.plain h.1, hchange.watched h.2⟩)
    (fun _ _ htime h => ⟨h.1, h.2.time.trans htime, h.2.known, h.2.current, h.2.executed⟩) hstart
  exact ⟨fun hbegun p' hp' => (hwatched.current p' hp').2 hbegun, hwatched.executed,
    hinv.committee id p hp⟩

/-- The committee withdraws its approval in the review period. -/
theorem reviewPeriod_of_run_withdraw :
    ∃ p p', (underReview [approve, propose]).proposals.lookup 0 = some p ∧
      (afterOperations (underReview [approve, propose]) [withdraw]).proposals.lookup 0 = some p' ∧
      Shrunk p p' ∧ p.availableActiveApprovals = {committeeAccount} ∧
      p'.availableActiveApprovals = ∅ := by
  have hkept : ∀ s : ProposalBooks ℕ Unit Unit, ∀ fee update,
      withdraw = .proposalUpdate fee update → KeysKept s.properties s.proposals update := by
    rintro s fee update ⟨⟩ p - -
    exact Finset.empty_subset _
  have hrun : ProposalRun committeeSurroundings KeysKept (underReview [approve, propose])
      (afterOperations (underReview [approve, propose]) [withdraw]) :=
    .afterOperations [] _ (.refl _) (by decide +kernel) (hkept _) (by decide +kernel)
  refine ⟨_, _, rfl, rfl, ?_, by decide +kernel, by decide +kernel⟩
  have happroved := ProposalRun.approved (fun _ _ _ => True) fun _ _ _ => trivial
  have hreview := reviewPeriod_of_run noProposals_emptyBooks happroved hrun 0 rfl
  exact hreview.1 (by decide +kernel) _ rfl

/-- **A key is added in the review period.** -/
theorem not_reviewPeriod_of_run :
    ¬ ∀ s₀ s s' : ProposalBooks ℕ Unit Unit, NoProposals s₀ →
      ProposalRun committeeSurroundings (fun _ _ _ => True) s₀ s →
      ProposalRun committeeSurroundings (fun _ _ _ => True) s s' →
      ∀ id p p', s.proposals.lookup id = some p → p.InReview s.properties.headTime →
        s'.proposals.lookup id = some p' → Shrunk p p' := by
  intro h
  have hrun : ProposalRun committeeSurroundings (fun _ _ _ => True) (underReview [approve, propose])
      (afterOperations (underReview [approve, propose]) [addKey]) :=
    .afterOperations [] _ (.refl _) (by decide +kernel) (fun _ _ _ => trivial)
      (by decide +kernel)
  have hshrunk := h _ _ _ noProposals_emptyBooks (ProposalRun.approved _ fun _ _ _ => trivial) hrun
    0 _ _ rfl (by decide +kernel) rfl
  have hkey := hshrunk.key
  revert hkey
  decide +kernel

end FinChain.Chain
