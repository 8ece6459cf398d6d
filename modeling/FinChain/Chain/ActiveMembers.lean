import FinChain.Chain.ApplyBlock
import FinChain.Lib.LeastPrefix
import Mathlib.Data.List.GetD
import Mathlib.Data.List.Induction
import Mathlib.Order.Bounds.Basic

/-!
# The active members

At a maintenance the number of active witnesses and of active committee members follows the opinions of the
accounts, weighted by stake. `vote_tally_helper` counts the stake behind each opinion in a histogram, and
`update_active_witnesses` and `update_active_committee_members` go up their histogram until they have passed
half of the stake that has an opinion (`memberCount`). So many of the candidates become active, in the order
of `sort_votable_objects`.

`FollowsStake` says what the number should be, in terms of the accounts alone. A histogram does not hold
the opinions above the maximum, though its total does, and this makes no difference: the loop ends at the maximum
anyway (`memberCount_le_iff`). What makes a difference is that both functions take the stake that has no
opinion from the histogram of the witnesses. The committee has the right size if and only if no size that it
may have lies between the two halves (`counts_follow_stake_iff`).

The stakes add up to at most what a `share_type` holds, as the supply of the core asset does, so that the
sums are those of natural numbers.
-/

namespace FinChain.Chain.Database

open Exec

variable {Op R : Type}

/-- The loop of `perform_account_maintenance` on the votes of the accounts, from buffers that are empty. -/
def tallyVotes (P : Protocol Op R) (o : Objects R) (votes : List Vote) : VoteBuffers :=
  votes.foldl (fun v vote => tallyVote P o vote v) (resizeBuffers P o {})

/-- What `sort_votable_objects` reads of a witness or a committee member. -/
structure Candidate where
  id : ℕ
  voteId : ℕ
  deriving DecidableEq

/-- `share_type` of an element of a buffer, which are numbers of 64 bits without a sign. -/
def shareType (x : ℕ) : ℤ := if x < 2 ^ 63 then x else x - 2 ^ 64

/-- The votes for a candidate. -/
def votesFor (v : VoteBuffers) (a : Candidate) : ℤ := shareType (v.voteTally.getD a.voteId 0)

/-- The order of `sort_votable_objects`. Candidates with as many votes go by their vote ids. -/
def rankedBefore (v : VoteBuffers) (a b : Candidate) : Prop :=
  votesFor v b < votesFor v a ∨ votesFor v a = votesFor v b ∧ a.voteId ≤ b.voteId

instance (v : VoteBuffers) : DecidableRel (rankedBefore v) :=
  fun _ _ => inferInstanceAs (Decidable (_ ∨ _))

/-- `sort_votable_objects`. -/
def sortVotableObjects (v : VoteBuffers) (candidates : List Candidate) (count : ℕ) : List Candidate :=
  (candidates.insertionSort (rankedBefore v)).take (min count candidates.length)

/-- `stake_target`, which is the same expression in both functions. -/
def stakeTarget (v : VoteBuffers) : ℕ :=
  (v.totalVotingStake + 2 ^ 64 - v.witnessCountHistogram.getD 0 0) % 2 ^ 64 / 2

/-- The loop of both functions, on the histogram of each. -/
def memberCount (histogram : List ℕ) (target : ℕ) : ℕ :=
  if 0 < target then leastPrefix (histogram.getD · 0) target (histogram.length - 1) 0 0 else 0

/-- The witnesses that `update_active_witnesses` makes active. -/
def updateActiveWitnesses (v : VoteBuffers) (minWitnessCount : ℕ) (witnesses : List Candidate) :
    List Candidate :=
  sortVotableObjects v witnesses
    (max (memberCount v.witnessCountHistogram (stakeTarget v) * 2 + 1) minWitnessCount)

/-- The committee members that `update_active_committee_members` makes active. -/
def updateActiveCommitteeMembers (v : VoteBuffers) (minCommitteeMemberCount : ℕ)
    (committeeMembers : List Candidate) : List Candidate :=
  sortVotableObjects v committeeMembers
    (max (memberCount v.committeeCountHistogram (stakeTarget v) * 2 + 1) minCommitteeMemberCount)

/-! ### What the counts should be -/

/-- The stake of the accounts whose vote counts and satisfies a condition. -/
def stakeWhere (votes : List Vote) (p : Vote → Prop) [DecidablePred p] : ℕ :=
  ((votes.filter fun vote => vote.counted ∧ p vote).map Vote.votingStake).sum

/-- The half of an opinion, which is cut to the maximum. Accounts where it is zero abstain. -/
def halfOpinion (maximum opinion : ℕ) : ℕ := min opinion maximum / 2

/-- The stake behind the half opinions from one to `c`. -/
def stakeUpTo (maximum : ℕ) (opinion : Vote → ℕ) (votes : List Vote) (c : ℕ) : ℕ :=
  stakeWhere votes fun vote =>
    1 ≤ halfOpinion maximum (opinion vote) ∧ halfOpinion maximum (opinion vote) ≤ c

/-- The stake of the accounts that do not abstain. -/
def stakeWithOpinion (maximum : ℕ) (opinion : Vote → ℕ) (votes : List Vote) : ℕ :=
  stakeWhere votes fun vote => 1 ≤ halfOpinion maximum (opinion vote)

/-- The least `c` for which the half opinions up to `c` have more than half of the stake. -/
structure MedianOpinion (maximum : ℕ) (opinion : Vote → ℕ) (votes : List Vote) (c : ℕ) : Prop where
  none : stakeWithOpinion maximum opinion votes / 2 = 0 → c = 0
  least : 0 < stakeWithOpinion maximum opinion votes / 2 →
    IsLeast {c | 1 ≤ c ∧ stakeWithOpinion maximum opinion votes / 2 < stakeUpTo maximum opinion votes c} c

/-- The number of active members follows the stake: it is twice the median half opinion and one, but
not less than the configured minimum and not more than there are candidates. -/
def FollowsStake (maximum : ℕ) (opinion : Vote → ℕ) (votes : List Vote) (minimum candidates count : ℕ) :
    Prop :=
  ∃ c, MedianOpinion maximum opinion votes c ∧ count = min (max (c * 2 + 1) minimum) candidates

/-! ### Stakes -/

section Stakes

variable {votes : List Vote} {p q : Vote → Prop} [DecidablePred p] [DecidablePred q]

theorem stakeWhere_append (vote : Vote) :
    stakeWhere (votes ++ [vote]) p =
      stakeWhere votes p + if vote.counted ∧ p vote then vote.votingStake else 0 := by
  unfold stakeWhere
  rw [List.filter_append, List.map_append, List.sum_append]
  by_cases h : vote.counted ∧ p vote <;> simp [h]

theorem stakeWhere_congr (h : ∀ vote ∈ votes, p vote ↔ q vote) : stakeWhere votes p = stakeWhere votes q := by
  unfold stakeWhere
  congr 2
  refine List.filter_congr fun vote hvote => ?_
  simp only [h vote hvote]

/-- Stakes with two conditions that exclude each other. -/
theorem stakeWhere_or (h : ∀ vote ∈ votes, p vote → ¬ q vote) :
    stakeWhere votes (fun vote => p vote ∨ q vote) = stakeWhere votes p + stakeWhere votes q := by
  induction votes using List.reverseRec with
  | nil => rfl
  | append_singleton votes vote ih =>
    rw [stakeWhere_append, stakeWhere_append, stakeWhere_append,
      ih fun other hother => h other (List.mem_append_left _ hother)]
    have hvote := h vote (List.mem_append_right _ (List.mem_singleton_self vote))
    by_cases hp : p vote
    · simp only [hp, hvote hp, or_false, and_false, if_false]
      omega
    · simp only [hp, false_or, and_false, if_false]
      omega

theorem stakeWhere_mono (h : ∀ vote ∈ votes, p vote → q vote) : stakeWhere votes p ≤ stakeWhere votes q := by
  have hsplit : stakeWhere votes q = stakeWhere votes p + stakeWhere votes fun vote => q vote ∧ ¬ p vote := by
    rw [← stakeWhere_or fun vote _ hp hq => hq.2 hp]
    refine stakeWhere_congr fun vote hvote => ?_
    have hpq := h vote hvote
    tauto
  omega

end Stakes

/-- All of the stake that votes. -/
def totalStake (votes : List Vote) : ℕ := stakeWhere votes fun _ => True

theorem stakeWhere_le_totalStake (votes : List Vote) (p : Vote → Prop) [DecidablePred p] :
    stakeWhere votes p ≤ totalStake votes :=
  stakeWhere_mono fun _ _ _ => trivial

/-! ### The histograms -/

/-- A histogram holds the stake behind each half opinion, of the accounts whose opinion is not above the
maximum. -/
structure HistogramOf (maximum : ℕ) (opinion : Vote → ℕ) (votes : List Vote) (histogram : List ℕ) : Prop where
  length : histogram.length = maximum / 2 + 1
  entry : ∀ k ≤ maximum / 2, histogram.getD k 0 =
    stakeWhere votes (fun vote => opinion vote ≤ maximum ∧ opinion vote / 2 = k) % 2 ^ 64

section Histogram

variable {maximum : ℕ} {opinion : Vote → ℕ} {votes : List Vote} {histogram : List ℕ}

theorem histogramOf_nil : HistogramOf maximum opinion [] (resize (maximum / 2 + 1) []) where
  length := by simp [resize]
  entry k hk := by
    have hlt : k < maximum / 2 + 1 := Nat.lt_succ_of_le hk
    simp [resize, stakeWhere, hlt]

theorem length_addStake (stake : ℕ) (offset : ℕ) :
    (addStake stake histogram offset).length = histogram.length :=
  List.length_modify _ _ _

theorem getD_addStake {stake offset k : ℕ} (hk : k < histogram.length) :
    (addStake stake histogram offset).getD k 0 =
      if offset = k then (histogram.getD k 0 + stake) % 2 ^ 64 else histogram.getD k 0 := by
  have hk' : k < (addStake stake histogram offset).length := by rwa [length_addStake]
  rw [List.getD_eq_getElem _ _ hk', List.getD_eq_getElem _ _ hk]
  exact List.getElem_modify _ _ _ _ hk'

theorem HistogramOf.append (h : HistogramOf maximum opinion votes histogram) {vote : Vote}
    (hcounted : vote.counted = true) :
    HistogramOf maximum opinion (votes ++ [vote])
      (if opinion vote ≤ maximum then
        addStake vote.votingStake histogram (min (opinion vote / 2) (histogram.length - 1))
      else histogram) := by
  split
  · next hle =>
    -- the offset is within the histogram, so nothing is cut
    have hoffset : min (opinion vote / 2) (histogram.length - 1) = opinion vote / 2 := by
      rw [h.length]
      omega
    rw [hoffset]
    refine ⟨by rw [length_addStake, h.length], fun k hk => ?_⟩
    rw [getD_addStake (by rw [h.length]; omega), h.entry k hk, stakeWhere_append]
    by_cases hk : opinion vote / 2 = k
    · rw [if_pos hk, if_pos ⟨hcounted, hle, hk⟩, Nat.mod_add_mod]
    · rw [if_neg hk, if_neg fun hand => hk hand.2.2, Nat.add_zero]
  · next hlt =>
    refine ⟨h.length, fun k hk => ?_⟩
    rw [h.entry k hk, stakeWhere_append, if_neg fun hand => hlt hand.2.1, Nat.add_zero]

theorem HistogramOf.append_uncounted (h : HistogramOf maximum opinion votes histogram) {vote : Vote}
    (hcounted : ¬ vote.counted = true) : HistogramOf maximum opinion (votes ++ [vote]) histogram where
  length := h.length
  entry k hk := by rw [h.entry k hk, stakeWhere_append, if_neg fun hand => hcounted hand.1, Nat.add_zero]

end Histogram

/-- The buffers hold the votes. -/
structure Tallied (P : Protocol Op R) (o : Objects R) (votes : List Vote) (v : VoteBuffers) : Prop where
  witnesses : HistogramOf (P.maximumWitnessCount o) Vote.numWitness votes v.witnessCountHistogram
  committee : HistogramOf (P.maximumCommitteeCount o) Vote.numCommittee votes v.committeeCountHistogram
  total : v.totalVotingStake = totalStake votes % 2 ^ 64

section Tally

variable {P : Protocol Op R} {o : Objects R}

theorem Tallied.tallyVote {votes : List Vote} {v : VoteBuffers} (h : Tallied P o votes v) (vote : Vote) :
    Tallied P o (votes ++ [vote]) (tallyVote P o vote v) := by
  unfold Database.tallyVote
  split
  · next hcounted =>
    refine ⟨h.witnesses.append hcounted, h.committee.append hcounted, ?_⟩
    have hall : totalStake (votes ++ [vote]) = totalStake votes + vote.votingStake := by
      unfold totalStake
      rw [stakeWhere_append, if_pos ⟨hcounted, trivial⟩]
    change (v.totalVotingStake + vote.votingStake) % 2 ^ 64 = _
    rw [h.total, Nat.mod_add_mod, hall]
  · next hcounted =>
    refine ⟨h.witnesses.append_uncounted hcounted, h.committee.append_uncounted hcounted, ?_⟩
    unfold totalStake
    rw [stakeWhere_append, if_neg fun hand => hcounted hand.1]
    exact h.total

/-- **What the tally leaves in the buffers**, by induction on the accounts. -/
theorem tallied_tallyVotes (votes : List Vote) : Tallied P o votes (tallyVotes P o votes) := by
  induction votes using List.reverseRec with
  | nil => exact ⟨histogramOf_nil, histogramOf_nil, rfl⟩
  | append_singleton votes vote ih =>
    unfold tallyVotes
    rw [List.foldl_append]
    exact ih.tallyVote vote

end Tally

/-! ### The loop -/

section Count

variable {maximum : ℕ} {opinion : Vote → ℕ} {votes : List Vote} {histogram : List ℕ}

theorem stakeUpTo_zero : stakeUpTo maximum opinion votes 0 = 0 := by
  unfold stakeUpTo stakeWhere
  have hnone : votes.filter (fun vote => decide (vote.counted = true ∧
      1 ≤ halfOpinion maximum (opinion vote) ∧ halfOpinion maximum (opinion vote) ≤ 0)) = [] := by
    refine List.filter_eq_nil_iff.mpr fun vote _ h => ?_
    have hand := of_decide_eq_true h
    omega
  rw [hnone]
  rfl

theorem stakeUpTo_maximum :
    stakeUpTo maximum opinion votes (maximum / 2) = stakeWithOpinion maximum opinion votes := by
  refine stakeWhere_congr fun vote _ => ?_
  unfold halfOpinion
  omega

/-- Below the maximum, the first entries of the histogram add up to the stake behind them. -/
theorem HistogramOf.prefixSum_eq (h : HistogramOf maximum opinion votes histogram)
    (hstake : totalStake votes < 2 ^ 63) {c : ℕ} (hc : c < maximum / 2) :
    prefixSum (histogram.getD · 0) c = stakeUpTo maximum opinion votes c := by
  induction c with
  | zero => exact stakeUpTo_zero.symm
  | succ c ih =>
    have hentry : histogram.getD (c + 1) 0 =
        stakeWhere votes fun vote => halfOpinion maximum (opinion vote) = c + 1 := by
      rw [h.entry (c + 1) hc.le, Nat.mod_eq_of_lt]
      · -- an opinion above the maximum would be in the last entry
        refine stakeWhere_congr fun vote _ => ?_
        unfold halfOpinion
        omega
      · exact (stakeWhere_le_totalStake _ _).trans_lt (hstake.trans (by decide))
    change prefixSum (histogram.getD · 0) c + histogram.getD (c + 1) 0 = _
    rw [ih (by omega), hentry]
    unfold stakeUpTo
    rw [← stakeWhere_or fun vote _ hle heq => by omega]
    refine stakeWhere_congr fun vote _ => ?_
    omega

theorem HistogramOf.memberCount_le (h : HistogramOf maximum opinion votes histogram) (target : ℕ) :
    memberCount histogram target ≤ maximum / 2 := by
  unfold memberCount
  split
  · have hle : leastPrefix (histogram.getD · 0) target (histogram.length - 1) 0 0 ≤
        0 + (histogram.length - 1) := leastPrefix_le 0
    rw [h.length] at hle
    rw [h.length]
    omega
  · exact Nat.zero_le _

/-- The loop needs no more than `c` steps. -/
def Reaches (maximum : ℕ) (opinion : Vote → ℕ) (votes : List Vote) (target c : ℕ) : Prop :=
  target = 0 ∨ target < stakeUpTo maximum opinion votes c

instance (target c : ℕ) : Decidable (Reaches maximum opinion votes target c) :=
  inferInstanceAs (Decidable (_ ∨ _))

/-- **Where the loop ends**, before the maximum. -/
theorem HistogramOf.memberCount_le_iff (h : HistogramOf maximum opinion votes histogram)
    (hstake : totalStake votes < 2 ^ 63) {target c : ℕ} (hc : c < maximum / 2) :
    memberCount histogram target ≤ c ↔ Reaches maximum opinion votes target c := by
  unfold memberCount Reaches
  split
  · next hpos =>
    have hrest : c < 0 + (histogram.length - 1) := by
      rw [h.length]
      omega
    have hiff : leastPrefix (histogram.getD · 0) target (histogram.length - 1) 0 0 ≤ c ↔
        target < prefixSum (histogram.getD · 0) c := leastPrefix_le_iff (Nat.zero_le c) hrest
    rw [hiff, h.prefixSum_eq hstake hc]
    constructor
    · exact Or.inr
    · rintro (hzero | hlt)
      · exact absurd hzero hpos.ne'
      · exact hlt
  · next hzero => exact iff_of_true (Nat.zero_le c) (.inl (Nat.eq_zero_of_not_pos hzero))

/-- With half of the stake that has an opinion as its target, the loop finds the median. -/
theorem HistogramOf.medianOpinion (h : HistogramOf maximum opinion votes histogram)
    (hstake : totalStake votes < 2 ^ 63) :
    MedianOpinion maximum opinion votes
      (memberCount histogram (stakeWithOpinion maximum opinion votes / 2)) := by
  set half := stakeWithOpinion maximum opinion votes / 2 with hhalf
  have hmax := h.memberCount_le half
  refine ⟨fun hzero => ?_, fun hpos => ⟨⟨?_, ?_⟩, fun c hc => ?_⟩⟩
  · rw [← hhalf] at hzero
    unfold memberCount
    rw [hzero]
    rfl
  · -- no stake is behind the half opinions up to zero
    by_contra hlt
    have hwide : 0 < maximum / 2 := by
      by_contra hnarrow
      have heq : stakeUpTo maximum opinion votes (maximum / 2) = stakeWithOpinion maximum opinion votes :=
        stakeUpTo_maximum
      rw [Nat.eq_zero_of_not_pos hnarrow, stakeUpTo_zero] at heq
      omega
    rcases (h.memberCount_le_iff hstake hwide).mp (Nat.lt_one_iff.mp (not_le.mp hlt)).le with hzero | hlt
    · omega
    · rw [stakeUpTo_zero] at hlt
      exact absurd hlt (Nat.not_lt_zero _)
  · rcases hmax.lt_or_eq with hlt | heq
    · exact ((h.memberCount_le_iff hstake hlt).mp le_rfl).resolve_left hpos.ne'
    · rw [← hhalf, heq, stakeUpTo_maximum]
      omega
  · by_cases hlt : c < maximum / 2
    · exact (h.memberCount_le_iff hstake hlt).mpr (.inr hc.2)
    · exact hmax.trans (not_lt.mp hlt)

theorem MedianOpinion.unique {c c' : ℕ} (h : MedianOpinion maximum opinion votes c)
    (h' : MedianOpinion maximum opinion votes c') : c = c' := by
  rcases Nat.eq_zero_or_pos (stakeWithOpinion maximum opinion votes / 2) with hzero | hpos
  · rw [h.none hzero, h'.none hzero]
  · exact (h.least hpos).unique (h'.least hpos)

/-- Only the loop with the right target gives the right number, up to what the candidates and the minimum
cut off. -/
theorem HistogramOf.followsStake_iff (h : HistogramOf maximum opinion votes histogram)
    (hstake : totalStake votes < 2 ^ 63) {minimum candidates target : ℕ} :
    FollowsStake maximum opinion votes minimum candidates
        (min (max (memberCount histogram target * 2 + 1) minimum) candidates) ↔
      ∀ c < maximum / 2, minimum < c * 2 + 3 → max (c * 2 + 1) minimum < candidates →
        (Reaches maximum opinion votes target c ↔
          Reaches maximum opinion votes (stakeWithOpinion maximum opinion votes / 2) c) := by
  have hmedian := h.medianOpinion hstake
  have hcount : FollowsStake maximum opinion votes minimum candidates
      (min (max (memberCount histogram target * 2 + 1) minimum) candidates) ↔
      min (max (memberCount histogram target * 2 + 1) minimum) candidates =
        min (max (memberCount histogram (stakeWithOpinion maximum opinion votes / 2) * 2 + 1) minimum)
          candidates := by
    constructor
    · rintro ⟨c, hc, heq⟩
      rwa [hc.unique hmedian] at heq
    · intro heq
      exact ⟨_, hmedian, heq⟩
  rw [hcount, clip_eq_iff (h.memberCount_le _) (h.memberCount_le _)]
  refine forall₂_congr fun c hc => ?_
  rw [h.memberCount_le_iff hstake hc, h.memberCount_le_iff hstake hc]

end Count

/-! ### The counts that are chosen -/

theorem length_sortVotableObjects (v : VoteBuffers) (candidates : List Candidate) (count : ℕ) :
    (sortVotableObjects v candidates count).length = min count candidates.length := by
  unfold sortVotableObjects
  rw [List.length_take, List.length_insertionSort]
  omega

/-- The stake that `stake_target` halves: all of it but for the opinions of no or one witness. An opinion
above the maximum is not among those in the histogram, so it counts here. -/
def stakeBesideAbstaining (maximumWitnessCount : ℕ) (votes : List Vote) : ℕ :=
  stakeWhere votes fun vote => maximumWitnessCount < vote.numWitness ∨ 1 < vote.numWitness

section Target

variable {P : Protocol Op R} {o : Objects R} {votes : List Vote} {v : VoteBuffers}

theorem Tallied.stakeTarget_eq (h : Tallied P o votes v) (hstake : totalStake votes < 2 ^ 63) :
    stakeTarget v = stakeBesideAbstaining (P.maximumWitnessCount o) votes / 2 := by
  -- who abstains from the witnesses is in the first entry
  have habstain : totalStake votes =
      stakeWhere votes (fun vote => vote.numWitness ≤ P.maximumWitnessCount o ∧ vote.numWitness / 2 = 0) +
        stakeBesideAbstaining (P.maximumWitnessCount o) votes := by
    unfold stakeBesideAbstaining
    rw [← stakeWhere_or fun vote _ hfirst hbeside => by omega]
    refine stakeWhere_congr fun vote _ => iff_of_true trivial ?_
    omega
  have hfirst := h.witnesses.entry 0 (Nat.zero_le _)
  have htotal := h.total
  unfold stakeTarget
  rw [Nat.mod_eq_of_lt (by omega)] at hfirst htotal
  rw [hfirst, htotal]
  omega

/-- The target of the witnesses is right, unless the maximum leaves no choice. -/
theorem reaches_stakeBesideAbstaining {c : ℕ} (hc : c < P.maximumWitnessCount o / 2) :
    stakeBesideAbstaining (P.maximumWitnessCount o) votes =
      stakeWithOpinion (P.maximumWitnessCount o) Vote.numWitness votes := by
  refine stakeWhere_congr fun vote _ => ?_
  unfold halfOpinion
  omega

end Target

/-- The active witnesses are as many as the stake asks for, and so are the active committee members, after a
tally of the votes. -/
def CountsFollowStake (P : Protocol Op R) (o : Objects R) (votes : List Vote)
    (minWitnessCount minCommitteeMemberCount : ℕ) (witnesses committeeMembers : List Candidate) : Prop :=
  FollowsStake (P.maximumWitnessCount o) Vote.numWitness votes minWitnessCount witnesses.length
      (updateActiveWitnesses (tallyVotes P o votes) minWitnessCount witnesses).length ∧
    FollowsStake (P.maximumCommitteeCount o) Vote.numCommittee votes minCommitteeMemberCount
      committeeMembers.length
      (updateActiveCommitteeMembers (tallyVotes P o votes) minCommitteeMemberCount committeeMembers).length

/-- **Exactly when the counts follow stake.** The number of witnesses does. The number of committee members
does if half of the stake that does not abstain from the witnesses may stand for half of the stake that
does not abstain from the committee: the opinions up to `c` pass both or none, for each `c` that gives a size
from the minimum up to the number of candidates. -/
theorem counts_follow_stake_iff (P : Protocol Op R) (o : Objects R) (votes : List Vote)
    (minWitnessCount minCommitteeMemberCount : ℕ) (witnesses committeeMembers : List Candidate)
    (hstake : totalStake votes < 2 ^ 63) :
    CountsFollowStake P o votes minWitnessCount minCommitteeMemberCount witnesses committeeMembers ↔
      ∀ c < P.maximumCommitteeCount o / 2, minCommitteeMemberCount < c * 2 + 3 →
        max (c * 2 + 1) minCommitteeMemberCount < committeeMembers.length →
        (Reaches (P.maximumCommitteeCount o) Vote.numCommittee votes
            (stakeBesideAbstaining (P.maximumWitnessCount o) votes / 2) c ↔
          Reaches (P.maximumCommitteeCount o) Vote.numCommittee votes
            (stakeWithOpinion (P.maximumCommitteeCount o) Vote.numCommittee votes / 2) c) := by
  have htallied := tallied_tallyVotes (P := P) (o := o) votes
  have htarget := htallied.stakeTarget_eq hstake
  have hwitnesses : FollowsStake (P.maximumWitnessCount o) Vote.numWitness votes minWitnessCount
      witnesses.length (updateActiveWitnesses (tallyVotes P o votes) minWitnessCount witnesses).length := by
    unfold updateActiveWitnesses
    rw [length_sortVotableObjects, htarget]
    refine (htallied.witnesses.followsStake_iff hstake).mpr fun c hc _ _ => ?_
    rw [reaches_stakeBesideAbstaining hc]
  unfold CountsFollowStake updateActiveCommitteeMembers
  rw [and_iff_right hwitnesses, length_sortVotableObjects, htarget]
  exact htallied.committee.followsStake_iff hstake

/-- Votes are given out up to the ninth, and there may be eleven members of each kind. -/
private def elevenMembers : Protocol ℕ Unit :=
  { Protocol.permissive with
    nextAvailableVoteId := fun _ => 9
    maximumWitnessCount := fun _ => 11
    maximumCommitteeCount := fun _ => 11 }

private def threeWitnesses : List Candidate := [⟨0, 1⟩, ⟨1, 2⟩, ⟨2, 3⟩]

private def fiveMembers : List Candidate := [⟨0, 4⟩, ⟨1, 5⟩, ⟨2, 6⟩, ⟨3, 7⟩, ⟨4, 8⟩]

/-- Two accounts want three and five committee members and the same number of witnesses. -/
private def bothWithOpinion : List Vote :=
  [{ counted := true, votingStake := 50, votes := [1, 2, 3, 4, 5, 6], numWitness := 3, numCommittee := 3 },
   { counted := true, votingStake := 60, votes := [1, 2, 3, 4, 5, 6, 7, 8], numWitness := 3, numCommittee := 5 }]

theorem counts_follow_stake_bothWithOpinion :
    CountsFollowStake elevenMembers (Protocol.permissiveGenesis []) bothWithOpinion 1 1 threeWitnesses
      fiveMembers :=
  (counts_follow_stake_iff elevenMembers (Protocol.permissiveGenesis []) bothWithOpinion 1 1 threeWitnesses
    fiveMembers (by decide)).mpr (by decide)

/-- The first of them abstains from the witnesses. -/
private def oneWithOpinion : List Vote :=
  [{ counted := true, votingStake := 50, votes := [4, 5, 6], numWitness := 0, numCommittee := 3 },
   { counted := true, votingStake := 60, votes := [1, 2, 3, 4, 5, 6, 7, 8], numWitness := 3, numCommittee := 5 }]

/-- The committee has three members then. The opinions up to three have 50 of a stake of 110, which is not more
than a half, but it is more than half of the 60 that have an opinion on the number of witnesses. -/
theorem not_counts_follow_stake :
    ¬ CountsFollowStake elevenMembers (Protocol.permissiveGenesis []) oneWithOpinion 1 1 threeWitnesses
      fiveMembers := by
  rintro ⟨-, c, hc, heq⟩
  have hthree : (updateActiveCommitteeMembers
      (tallyVotes elevenMembers (Protocol.permissiveGenesis []) oneWithOpinion) 1 fiveMembers).length = 3 := by
    decide
  have hfive : fiveMembers.length = 5 := rfl
  rw [hthree, hfive] at heq
  have hone : c = 1 := by omega
  have hmost := (hc.least (by decide)).1.2
  rw [hone] at hmost
  exact absurd hmost (by decide)

end FinChain.Chain.Database
