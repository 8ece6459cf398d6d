import FinChain.Chain.ProposalChanges

/-!
# The end of a proposal

`clear_expired_proposals` takes the proposal that expires first, as long as there is one that has
expired, executes it or gives it up, and in any case removes it. What it executes may remove further
proposals, and may create some, but these expire later. So the proposals that have expired become
fewer in every round, and in the end there are none (`clearExpiredProposals_ok`).
-/

namespace FinChain.Chain

open Exec Ledger FinChain.Protocol

variable {Key Other R : Type}

/-! ### The index by expiration -/

section Order

variable {s : ProposalBooks Key Other R}

instance : Std.Total (@expiresBefore Key Other) where
  total a b := by
    unfold expiresBefore
    omega

instance : IsTrans _ (@expiresBefore Key Other) where
  trans a b c := by
    unfold expiresBefore
    omega

theorem ProposalBooks.firstExpired_eq_some {id : ℕ} {p : ProposalObject Key (Operation Key Other)}
    (h : s.firstExpired = some (id, p)) :
    s.proposals.lookup id = some p ∧ p.expirationTime ≤ s.properties.headTime := by
  obtain ⟨hmem, hdue⟩ := List.head?_filter_insertionSort_eq_some h
  exact ⟨Index.lookup_of_mem_entries hmem, of_decide_eq_true hdue⟩

/-- The first proposal is the one that expires first. -/
theorem ProposalBooks.firstExpired_eq_none (h : s.firstExpired = none) {id : ℕ}
    {p : ProposalObject Key (Operation Key Other)} (hp : s.proposals.lookup id = some p) :
    s.properties.headTime < p.expirationTime := by
  have hbefore : ∀ a b : ℕ × ProposalObject Key (Operation Key Other), expiresBefore a b →
      decide (b.2.expirationTime ≤ s.properties.headTime) = true →
        decide (a.2.expirationTime ≤ s.properties.headTime) = true := by
    intro a b hab hb
    rw [decide_eq_true_eq] at hb ⊢
    unfold expiresBefore at hab
    omega
  have hdue := List.head?_filter_insertionSort_eq_none hbefore h (Index.mem_entries_of_lookup hp)
  exact Nat.not_le.mp (of_decide_eq_false hdue)

/-- The proposal has expired. -/
def ExpiredAt (s : ProposalBooks Key Other R) (id : ℕ) : Prop :=
  ∃ p, s.proposals.lookup id = some p ∧ p.expirationTime ≤ s.properties.headTime

instance (s : ProposalBooks Key Other R) (id : ℕ) : Decidable (ExpiredAt s id) :=
  match h : s.proposals.lookup id with
  | none => isFalse fun ⟨_, hp, _⟩ => by
      rw [h] at hp
      cases hp
  | some p =>
    if hle : p.expirationTime ≤ s.properties.headTime then isTrue ⟨p, h, hle⟩
    else isFalse fun ⟨_, hp, hle'⟩ => by
      rw [h] at hp
      cases hp
      exact hle hle'

/-- The proposals that have expired. -/
def expiredIds (s : ProposalBooks Key Other R) : Finset ℕ :=
  (s.proposals.entries.map Prod.fst).toFinset.filter (ExpiredAt s)

theorem mem_expiredIds {id : ℕ} : id ∈ expiredIds s ↔ ExpiredAt s id := by
  unfold expiredIds
  rw [Finset.mem_filter, List.mem_toFinset]
  refine ⟨fun h => h.2, fun h => ⟨?_, h⟩⟩
  obtain ⟨p, hp, -⟩ := h
  exact List.mem_map_of_mem (f := Prod.fst) (Index.mem_entries_of_lookup hp)

theorem card_expiredIds_le (s : ProposalBooks Key Other R) :
    (expiredIds s).card ≤ s.proposals.entries.length := by
  unfold expiredIds
  refine (Finset.card_filter_le _ _).trans ((List.toFinset_card_le _).trans ?_)
  rw [List.length_map]

end Order

/-! ### The loop -/

variable [LinearOrder Key] {E : Surroundings Key Other R} {U : UpdateCondition Key Other}
variable {s s' : ProposalBooks Key Other R} {u : Unit} {levels : ℕ}

/-- No change brings about a proposal that has expired. -/
theorem ProposalChange.expired (h : ProposalChange E U s s') {id : ℕ} (hid : ExpiredAt s' id) :
    ExpiredAt s id := by
  obtain ⟨p', hp', hle⟩ := hid
  rw [h.properties] at hle
  rcases h.lookup hp' with ⟨p, hp, hsame⟩ | ⟨-, op, hallowed, rfl, -⟩
  · rw [hsame.expirationTime] at hle
    exact ⟨p, hp, hle⟩
  · exact absurd hallowed.unexpired (Nat.not_lt.mpr hle)

theorem ProposalChanges.expired (h : ProposalChanges E U s s') {id : ℕ} (hid : ExpiredAt s' id) :
    ExpiredAt s id := by
  induction h with
  | refl => exact hid
  | tail _ hstep ih => exact ih (hstep.expired hid)

/-- **An expired proposal is removed**, after it was executed or not. -/
theorem finishProposal_ok {id : ℕ} {p : ProposalObject Key (Operation Key Other)}
    (hs : PlainProposals s) (hp : s.proposals.lookup id = some p)
    (hexpired : p.expirationTime ≤ s.properties.headTime)
    (h : finishProposal E levels id p s = .ok u s') :
    ProposalChanges E U s s' ∧ s'.proposals.lookup id = none := by
  have hremoved : ∀ {s' : ProposalBooks Key Other R}, removeProposal id s = .ok u s' →
      ProposalChanges E U s s' ∧ s'.proposals.lookup id = none := by
    intro s' h
    obtain ⟨-, rfl⟩ := removeProposal_ok h
    refine ⟨.single (.remove id), ?_⟩
    change (s.proposals.erase id).lookup id = none
    rw [Index.lookup_erase, if_pos rfl]
  unfold finishProposal at h
  rw [get_bind] at h
  split at h
  · rcases onException_ok h with hpush | hremove
    · exact changes_push (hs id p hp) hp (fun _ => hexpired) (inSession_eq_ok.mpr hpush)
    · exact hremoved hremove
  · exact hremoved h

/-- **The loop**, with one round for every proposal that has expired. -/
theorem clearProposals_ok {fuel : ℕ} (hs : PlainProposals s)
    (h : clearProposals E levels fuel s = .ok u s') :
    ProposalChanges E U s s' ∧ ((expiredIds s).card ≤ fuel → expiredIds s' = ∅) := by
  induction fuel generalizing s with
  | zero =>
    obtain ⟨-, rfl⟩ := pure_eq_ok.mp h
    exact ⟨.refl, fun hcard => Finset.card_eq_zero.mp (Nat.le_zero.mp hcard)⟩
  | succ fuel ih =>
    unfold clearProposals at h
    rw [get_bind] at h
    cases hfirst : s.firstExpired with
    | none =>
      rw [hfirst] at h
      obtain ⟨-, rfl⟩ := pure_eq_ok.mp h
      refine ⟨.refl, fun _ => Finset.eq_empty_of_forall_notMem fun id hid => ?_⟩
      obtain ⟨p, hp, hle⟩ := mem_expiredIds.mp hid
      exact absurd (s.firstExpired_eq_none hfirst hp) (Nat.not_lt.mpr hle)
    | some e =>
      obtain ⟨id, p⟩ := e
      rw [hfirst] at h
      obtain ⟨_, s₁, hfinish, h⟩ := bind_eq_ok.mp h
      obtain ⟨hp, hle⟩ := s.firstExpired_eq_some hfirst
      obtain ⟨hchanges, hgone⟩ := finishProposal_ok (U := U) hs hp hle hfinish
      obtain ⟨hrest, hnone⟩ := ih (hchanges.plain hs) h
      refine ⟨hchanges.trans hrest, fun hcard => hnone ?_⟩
      -- the proposal was among those that had expired, and is not any more
      have hmem : id ∈ expiredIds s := mem_expiredIds.mpr ⟨p, hp, hle⟩
      have hsub : expiredIds s₁ ⊆ (expiredIds s).erase id := by
        intro id' hid'
        have hexpired := mem_expiredIds.mp hid'
        refine Finset.mem_erase.mpr ⟨?_, mem_expiredIds.mpr (ProposalChanges.expired hchanges hexpired)⟩
        rintro rfl
        obtain ⟨p', hp', -⟩ := hexpired
        rw [hgone] at hp'
        cases hp'
      have hless := Finset.card_le_card hsub
      rw [Finset.card_erase_of_mem hmem] at hless
      omega

/-- **`clear_expired_proposals`** leaves no proposal that has expired. -/
theorem clearExpiredProposals_ok (hs : PlainProposals s)
    (h : clearExpiredProposals E levels s = .ok u s') :
    ProposalChanges E U s s' ∧ ∀ id p, s'.proposals.lookup id = some p →
      s'.properties.headTime < p.expirationTime := by
  unfold clearExpiredProposals at h
  rw [get_bind] at h
  obtain ⟨hchanges, hnone⟩ := clearProposals_ok (U := U) hs h
  refine ⟨hchanges, fun id p hp => Nat.not_le.mp fun hle => ?_⟩
  have hmem : id ∈ expiredIds s' := mem_expiredIds.mpr ⟨p, hp, hle⟩
  rw [hnone (card_expiredIds_le s)] at hmem
  exact absurd hmem (Finset.notMem_empty id)

end FinChain.Chain
