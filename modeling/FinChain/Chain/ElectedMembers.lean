import FinChain.Chain.ActiveMembers
import FinChain.Lib.PartialSort
import Mathlib.Data.Finset.Dedup
import Mathlib.Tactic.NormNum

/-!
# Who is elected

`sort_votable_objects` sorts references to all witnesses, or all committee members, by `std::partial_sort` and
keeps the first ones. The comparator reads the votes from the tally and breaks ties by the vote ids, which are
distinct, so any two candidates are in a strict order (`strictlyOrdered_ranksAhead`), and who is among the first
does not depend on the order of the index or on how the rest is arranged (`sort_votable_objects_elects`).

The active witnesses and the active committee members are therefore those candidates that fewer others than there are
seats are ahead of.

When there are no candidates, `refs.resize( count, refs.front() )` adds no element, and nothing is read.
-/

namespace FinChain.Chain.Database

/-- The comparator of `sort_votable_objects`. -/
def ranksAhead (v : VoteBuffers) (a b : Candidate) : Prop :=
  if votesFor v a ≠ votesFor v b then votesFor v b < votesFor v a else a.voteId < b.voteId

instance (v : VoteBuffers) : DecidableRel (ranksAhead v) :=
  fun a b => inferInstanceAs (Decidable (if votesFor v a ≠ votesFor v b then _ else _))

/-- The references that `sort_votable_objects` returns, when `refs` are those that `std::partial_sort` leaves. -/
def keptRefs (candidates refs : List Candidate) (count : ℕ) : List Candidate :=
  refs.take (min count candidates.length)

section Order

variable {v : VoteBuffers} {a b : Candidate}

/-- Votes count first, the smaller vote id after them. -/
theorem ranksAhead_iff : ranksAhead v a b ↔
    votesFor v b < votesFor v a ∨ votesFor v a = votesFor v b ∧ a.voteId < b.voteId := by
  unfold ranksAhead
  by_cases heq : votesFor v a = votesFor v b
  · simp [heq]
  · simp [heq]

/-- The order that the sorting by insertion uses is the same one. -/
theorem rankedBefore_iff : rankedBefore v a b ↔ ¬ ranksAhead v b a := by
  rw [ranksAhead_iff]
  unfold rankedBefore
  omega

instance (v : VoteBuffers) : Std.Asymm (ranksAhead v) where
  asymm a b := by
    simp only [ranksAhead_iff]
    omega

/-- **Distinct vote ids make the order total.** -/
theorem strictlyOrdered_ranksAhead (v : VoteBuffers) {candidates : List Candidate}
    (hids : (candidates.map Candidate.voteId).Nodup) : StrictlyOrdered (ranksAhead v) candidates := by
  intro a ha b hb hne
  have hid : a.voteId ≠ b.voteId := fun heq => hne (List.inj_on_of_nodup_map hids ha hb heq)
  simp only [ranksAhead_iff]
  omega

/-- Where a tally has 63 bits, the votes are what it says. -/
theorem votesFor_of_lt (h : v.voteTally.getD a.voteId 0 < 2 ^ 63) :
    votesFor v a = v.voteTally.getD a.voteId 0 := by
  exact if_pos h

end Order

/-- The insertion sort of the model is one of the results that `std::partial_sort` may have. -/
theorem partiallySorted_insertionSort (v : VoteBuffers) (candidates : List Candidate) (count : ℕ) :
    PartiallySorted (ranksAhead v) count candidates (candidates.insertionSort (rankedBefore v)) := by
  have : Std.Total (rankedBefore v) := ⟨fun a b => by unfold rankedBefore; omega⟩
  have : IsTrans Candidate (rankedBefore v) := ⟨fun a b c => by unfold rankedBefore; omega⟩
  refine .of_pairwise (List.perm_insertionSort _ _) ?_
  exact (List.pairwise_insertionSort (rankedBefore v) candidates).imp fun hab => rankedBefore_iff.mp hab

/-- The first candidates by votes: what `sort_votable_objects` is there for. -/
structure Elected (v : VoteBuffers) (candidates : List Candidate) (count : ℕ) (elected : List Candidate) : Prop where
  length : elected.length = min count candidates.length
  candidate : ∀ a ∈ elected, a ∈ candidates
  distinct : elected.Nodup
  ordered : elected.Pairwise (ranksAhead v)
  ahead : ∀ a ∈ elected, ∀ b ∈ candidates, b ∉ elected → ranksAhead v a b
  /-- A candidate is elected if fewer others than there are seats are ahead. -/
  elected_iff : ∀ a ∈ candidates, a ∈ elected ↔ candidates.countP (fun b => ranksAhead v b a) < count

section Elections

variable {v : VoteBuffers} {candidates refs : List Candidate} {count : ℕ}

/-- **What is kept of a partial sort is the top of the vote.** -/
theorem elected_keptRefs (hids : (candidates.map Candidate.voteId).Nodup)
    (h : PartiallySorted (ranksAhead v) (min count candidates.length) candidates refs) :
    Elected v candidates count (keptRefs candidates refs count) := by
  have hnodup : candidates.Nodup := hids.of_map
  have hordered := strictlyOrdered_ranksAhead v hids
  refine ⟨?_, ?_, ?_, h.pairwise_take hnodup hordered, ?_, ?_⟩
  · unfold keptRefs
    rw [List.length_take, h.perm.length_eq]
    omega
  · exact fun a ha => h.perm.mem_iff.mp (List.mem_of_mem_take ha)
  · exact (h.perm.nodup_iff.mpr hnodup).sublist (List.take_sublist _ _)
  · exact fun a ha b hb hnot => h.lt_of_not_mem_take hordered ha hb hnot
  · intro a ha
    unfold keptRefs
    rw [h.mem_take_iff hordered (min_le_right _ _) ha]
    -- nobody is ahead of himself, so not all candidates are
    have hlt : candidates.countP (fun b => ranksAhead v b a) < candidates.length := by
      refine lt_of_le_of_ne List.countP_le_length fun heq => ?_
      have hself : ranksAhead v a a := by simpa using List.countP_eq_length.mp heq a ha
      exact Std.Asymm.asymm a a hself hself
    omega

/-- The definition of the model, in the same words. -/
theorem sortVotableObjects_eq (hids : (candidates.map Candidate.voteId).Nodup)
    (h : PartiallySorted (ranksAhead v) (min count candidates.length) candidates refs) :
    keptRefs candidates refs count = sortVotableObjects v candidates count :=
  (partiallySorted_insertionSort v candidates _).take_eq hids.of_map (strictlyOrdered_ranksAhead v hids) h
    (.refl _) (min_le_right _ _)

theorem sortVotableObjects_perm (hids : (candidates.map Candidate.voteId).Nodup) {candidates' : List Candidate}
    (hperm : candidates'.Perm candidates) :
    sortVotableObjects v candidates' count = sortVotableObjects v candidates count := by
  have hids' : (candidates'.map Candidate.voteId).Nodup := (hperm.map _).nodup_iff.mpr hids
  have hlength := hperm.length_eq
  have hsorted := partiallySorted_insertionSort v candidates' (min count candidates.length)
  unfold sortVotableObjects
  rw [hlength]
  exact (partiallySorted_insertionSort v candidates _).take_eq hids.of_map (strictlyOrdered_ranksAhead v hids)
    hsorted hperm (min_le_right _ _)

theorem elected_sortVotableObjects (hids : (candidates.map Candidate.voteId).Nodup) :
    Elected v candidates count (sortVotableObjects v candidates count) :=
  elected_keptRefs hids (partiallySorted_insertionSort v candidates _)

end Elections

/-- **The elected are exactly the top of the vote**, whatever the order of the index is and whatever
`std::partial_sort` does with the rest. The active members are the elected witnesses and committee
members. -/
theorem sort_votable_objects_elects (v : VoteBuffers) {candidates : List Candidate}
    (hids : (candidates.map Candidate.voteId).Nodup) :
    (∀ count refs, PartiallySorted (ranksAhead v) (min count candidates.length) candidates refs →
      Elected v candidates count (keptRefs candidates refs count)) ∧
    (∀ (count : ℕ) (index refs index' refs' : List Candidate), index.Perm candidates → index'.Perm candidates →
      PartiallySorted (ranksAhead v) (min count index.length) index refs →
      PartiallySorted (ranksAhead v) (min count index'.length) index' refs' →
      keptRefs index refs count = keptRefs index' refs' count) ∧
    ∀ (minimum : ℕ) (index : List Candidate), index.Perm candidates →
      Elected v candidates (max (memberCount v.witnessCountHistogram (stakeTarget v) * 2 + 1) minimum)
        (updateActiveWitnesses v minimum index) ∧
      Elected v candidates (max (memberCount v.committeeCountHistogram (stakeTarget v) * 2 + 1) minimum)
        (updateActiveCommitteeMembers v minimum index) := by
  have hindex : ∀ {index : List Candidate}, index.Perm candidates → (index.map Candidate.voteId).Nodup :=
    fun hperm => (hperm.map _).nodup_iff.mpr hids
  refine ⟨fun count refs h => elected_keptRefs hids h, ?_, ?_⟩
  · intro count index refs index' refs' hperm hperm' h h'
    calc keptRefs index refs count
        = sortVotableObjects v index count := sortVotableObjects_eq (hindex hperm) h
      _ = sortVotableObjects v candidates count := sortVotableObjects_perm hids hperm
      _ = sortVotableObjects v index' count := (sortVotableObjects_perm hids hperm').symm
      _ = keptRefs index' refs' count := (sortVotableObjects_eq (hindex hperm') h').symm
  · intro minimum index hperm
    unfold updateActiveWitnesses updateActiveCommitteeMembers
    rw [sortVotableObjects_perm hids hperm, sortVotableObjects_perm hids hperm]
    exact ⟨elected_sortVotableObjects hids, elected_sortVotableObjects hids⟩

section Example

/-- The first and the last of three candidates have as many votes. -/
private def tiedVotes : VoteBuffers := { voteTally := [0, 7, 5, 7] }

private def threeCandidates : List Candidate := [⟨0, 1⟩, ⟨1, 2⟩, ⟨2, 3⟩]

theorem sort_votable_objects_elects_tied :
    Elected tiedVotes threeCandidates 2 (keptRefs threeCandidates [⟨0, 1⟩, ⟨2, 3⟩, ⟨1, 2⟩] 2) ∧
      updateActiveWitnesses tiedVotes 1 [⟨1, 2⟩, ⟨2, 3⟩, ⟨0, 1⟩] = [⟨0, 1⟩] := by
  obtain ⟨helected, -, -⟩ := sort_votable_objects_elects tiedVotes (by decide : (threeCandidates.map Candidate.voteId).Nodup)
  exact ⟨helected 2 _ ⟨by decide, by decide, by decide⟩, by decide⟩

end Example

end FinChain.Chain.Database
