import FinChain.Chain.ElectedMembers
import FinChain.Protocol.Authority
import Mathlib.Data.List.Perm.Basic
import Mathlib.Data.Nat.Log
import Mathlib.Tactic.GCongr
import Mathlib.Tactic.Ring

/-!
# Vote totals as an authority

The accounts of the witnesses and of the committee are controlled by the active members, weighted by their
votes, and an account may be controlled in this way by the largest holders of an asset. All three are
written by `vote_counter`, which is told of the accounts in the order of their votes. The votes have 64 bits and
the weights of an authority only 16, so the first account fixes by how many bits all votes are shifted, and
who would have no weight then gets one.

`countVotes` is the life of a `vote_counter`. As the accounts come in the order of their votes, no weight is
larger than the first one, so the sum of the weights has 32 bits and is the total that the counter keeps beside
them (`weights_countVotes`). Half of it and one is a threshold that all members together reach, and of two
disjoint sets of members at most one (`SoundMajority`).
-/

namespace FinChain.Protocol

variable {Key : Type}

/-- `account_auths[ k ] = w`. The entries of a `flat_map` are in the order of their keys. -/
def setWeight (k w : ℕ) (l : List (ℕ × ℕ)) : List (ℕ × ℕ) :=
  if k ∈ l.map Prod.fst then l.map fun e => if e.1 = k then (k, w) else e
  else l.orderedInsert (fun a b => a.1 ≤ b.1) (k, w)

/-- A key that is new gets an entry of its own. -/
theorem setWeight_perm {k w : ℕ} {l : List (ℕ × ℕ)} (h : k ∉ l.map Prod.fst) :
    (setWeight k w l).Perm ((k, w) :: l) := by
  rw [setWeight, if_neg h]
  exact List.perm_orderedInsert _ _ _

theorem nodup_setWeight {k w : ℕ} {l : List (ℕ × ℕ)} (h : (l.map Prod.fst).Nodup) :
    ((setWeight k w l).map Prod.fst).Nodup := by
  by_cases hk : k ∈ l.map Prod.fst
  · -- the keys stay as they are
    have hkeys : (setWeight k w l).map Prod.fst = l.map Prod.fst := by
      rw [setWeight, if_pos hk, List.map_map]
      refine List.map_congr_left fun e _ => ?_
      by_cases he : e.1 = k <;> simp [he]
    rw [hkeys]
    exact h
  · rw [((setWeight_perm hk).map Prod.fst).nodup_iff]
    exact List.nodup_cons.mpr ⟨hk, h⟩

/-- `authority()`. -/
def Authority.empty : Authority Key where
  weightThreshold := 0
  accountAuths := []
  keyAuths := []
  accounts_nodup := List.nodup_nil
  keys_nodup := List.nodup_nil

/-- `add_authority` of an account. -/
def Authority.addAuthority (auth : Authority Key) (k w : ℕ) : Authority Key :=
  { auth with
    accountAuths := setWeight k w auth.accountAuths
    accounts_nodup := nodup_setWeight auth.accounts_nodup }

/-! ### Who satisfies an authority -/

/-- The weight of the members in a set. -/
def Authority.weightOf (auth : Authority Key) (S : Finset ℕ) : ℕ :=
  ((auth.accountAuths.filter fun m => m.1 ∈ S).map Prod.snd).sum

/-- The weight of all members. -/
def Authority.totalWeight (auth : Authority Key) : ℕ := (auth.accountAuths.map Prod.snd).sum

/-- `check_authority` succeeds when the accounts in the set approve and nobody has signed. -/
def Authority.SatisfiedBy [LinearOrder Key] (auth : Authority Key) (S : Finset ℕ) : Prop :=
  (SignState.checkAuthority (fun _ => none) 0 (some auth)
    { providedSignatures := ∅, approvedBy := S }).1 = true

/-- The loop over the accounts of an authority, when no wider search is possible. The weights that are added up
are those of the accounts that approve. -/
theorem weigh_approves [LinearOrder Key] (threshold : ℕ) (s : SignState Key) :
    ∀ (members : List (ℕ × ℕ)) (total : ℕ), total + (members.map Prod.snd).sum < 2 ^ 32 →
      (((SignState.weigh threshold (SignState.approves none) members total s).1.1 ||
          decide (threshold ≤ (SignState.weigh threshold (SignState.approves none) members total s).1.2)) = true ↔
        threshold ≤ total + ((members.filter fun m => m.1 ∈ s.approvedBy).map Prod.snd).sum)
  | [], total, _ => by
    show (false || decide (threshold ≤ total)) = true ↔ threshold ≤ total + 0
    rw [Bool.false_or, decide_eq_true_iff, add_zero]
  | (m, w) :: members, total, hfits => by
    have hnext : total + w + (members.map Prod.snd).sum < 2 ^ 32 := by
      simpa [add_assoc] using hfits
    by_cases hm : m ∈ s.approvedBy
    · have hmod : (total + w) % 2 ^ 32 = total + w := Nat.mod_eq_of_lt (by omega)
      have hfilter : ((m, w) :: members).filter (fun m => decide (m.1 ∈ s.approvedBy)) =
          (m, w) :: members.filter fun m => decide (m.1 ∈ s.approvedBy) := by simp [hm]
      rw [hfilter, List.map_cons, List.sum_cons, ← add_assoc]
      by_cases hreached : threshold ≤ total + w
      · -- the loop returns early, and what is left would only add to the sum
        have hrun : SignState.weigh threshold (SignState.approves none) ((m, w) :: members) total s =
            ((true, total + w), s) := by
          simp only [SignState.weigh, SignState.approves, if_pos hm, hmod, if_pos hreached]
        rw [hrun]
        exact iff_of_true rfl (hreached.trans (Nat.le_add_right _ _))
      · have hrun : SignState.weigh threshold (SignState.approves none) ((m, w) :: members) total s =
            SignState.weigh threshold (SignState.approves none) members (total + w) s := by
          simp only [SignState.weigh, SignState.approves, if_pos hm, hmod, if_neg hreached]
        rw [hrun]
        exact weigh_approves threshold s members (total + w) hnext
    · have hrun : SignState.weigh threshold (SignState.approves none) ((m, w) :: members) total s =
          SignState.weigh threshold (SignState.approves none) members total s := by
        simp only [SignState.weigh, SignState.approves, if_neg hm]
      have hfilter : ((m, w) :: members).filter (fun m => decide (m.1 ∈ s.approvedBy)) =
          members.filter fun m => decide (m.1 ∈ s.approvedBy) := by simp [hm]
      rw [hrun, hfilter]
      exact weigh_approves threshold s members total (by omega)

/-- **Who satisfies an authority** of accounts alone. -/
theorem Authority.satisfiedBy_iff [LinearOrder Key] {auth : Authority Key} (hkeys : auth.keyAuths = [])
    (hfits : auth.totalWeight < 2 ^ 32) (S : Finset ℕ) :
    auth.SatisfiedBy S ↔ auth.weightThreshold ≤ auth.weightOf S := by
  have hloop := weigh_approves auth.weightThreshold
    ({ providedSignatures := ∅, approvedBy := S, visited := [auth] } : SignState Key) auth.accountAuths 0
    (by simpa [Authority.totalWeight] using hfits)
  rw [zero_add] at hloop
  rw [Authority.weightOf, ← hloop]
  simp [Authority.SatisfiedBy, SignState.checkAuthority, SignState.checkMembers, hkeys, SignState.weigh]

end FinChain.Protocol

open FinChain.Protocol (Authority)

namespace FinChain.Chain

/-- `vote_counter`. -/
structure VoteCounter (Key : Type) where
  lastVotes : ℕ := 2 ^ 64 - 1
  totalVotes : ℕ := 0
  bitshift : ℤ := -1
  auth : Authority Key := .empty

variable {Key : Type}

namespace VoteCounter

/-- `add`. -/
def add (who votes : ℕ) (c : VoteCounter Key) : VoteCounter Key :=
  if votes = 0 then c
  else
    let bitshift := if c.bitshift = -1 then max ((Nat.log2 votes : ℤ) - 15) 0 else c.bitshift
    let scaledVotes := max (votes >>> bitshift.toNat) 1
    { lastVotes := votes
      totalVotes := (c.totalVotes + scaledVotes) % 2 ^ 64
      bitshift := bitshift
      auth := c.auth.addAuthority who (scaledVotes % 2 ^ 16) }

/-- `finish`. -/
def finish (c : VoteCounter Key) (outAuth : Authority Key) : Authority Key :=
  if c.totalVotes = 0 then outAuth
  else
    let weight := c.totalVotes % 2 ^ 32
    { c.auth with weightThreshold := weight >>> 1 + 1 }

/-- `is_empty`. -/
def isEmpty (c : VoteCounter Key) : Bool := c.totalVotes = 0

/-- Accounts with their votes are added one after the other. -/
def addAll (l : List (ℕ × ℕ)) (c : VoteCounter Key) : VoteCounter Key :=
  l.foldl (fun c e => c.add e.1 e.2) c

end VoteCounter

/-- What a new `vote_counter` makes of accounts with their votes. -/
def countVotes (l : List (ℕ × ℕ)) (outAuth : Authority Key) : Authority Key :=
  (VoteCounter.addAll l ({} : VoteCounter Key)).finish outAuth

/-! ### The weights -/

/-- The accounts that have votes. -/
def voting (l : List (ℕ × ℕ)) : List (ℕ × ℕ) := l.filter fun e => 0 < e.2

/-- The shift that the first account with votes fixes. -/
def voteShift (l : List (ℕ × ℕ)) : ℕ := ((voting l).head?.map fun e => Nat.log2 e.2 - 15).getD 0

/-- The weight of an account. -/
def scaledVotes (shift votes : ℕ) : ℕ := max (votes >>> shift) 1

theorem one_le_scaledVotes (shift votes : ℕ) : 1 ≤ scaledVotes shift votes := le_max_right _ _

theorem scaledVotes_mono {shift votes votes' : ℕ} (h : votes ≤ votes') :
    scaledVotes shift votes ≤ scaledVotes shift votes' := by
  unfold scaledVotes
  rw [Nat.shiftRight_eq_div_pow, Nat.shiftRight_eq_div_pow]
  exact max_le_max (Nat.div_le_div_right h) le_rfl

/-- The shift leaves 16 bits of the first votes. -/
theorem scaledVotes_first (votes : ℕ) :
    scaledVotes (Nat.log2 votes - 15) votes ≤ 65535 := by
  have hlt : votes < 2 ^ (Nat.log2 votes + 1) := Nat.lt_log2_self
  unfold scaledVotes
  rw [Nat.shiftRight_eq_div_pow]
  refine max_le (Nat.le_of_lt_succ ?_) (by omega)
  rw [Nat.div_lt_iff_lt_mul (Nat.two_pow_pos _)]
  calc votes < 2 ^ (Nat.log2 votes + 1) := hlt
    _ ≤ 2 ^ (16 + (Nat.log2 votes - 15)) := Nat.pow_le_pow_right (by omega) (by omega)
    _ = Nat.succ 65535 * 2 ^ (Nat.log2 votes - 15) := by rw [pow_add]; rfl

namespace VoteCounter

theorem add_zero_votes (who : ℕ) (c : VoteCounter Key) : c.add who 0 = c := if_pos rfl

theorem addAll_voting (l : List (ℕ × ℕ)) : ∀ c : VoteCounter Key, addAll (voting l) c = addAll l c := by
  induction l with
  | nil => exact fun _ => rfl
  | cons e l ih =>
    intro c
    by_cases he : 0 < e.2
    · have hvoting : voting (e :: l) = e :: voting l := by simp [voting, he]
      rw [hvoting]
      exact ih (c.add e.1 e.2)
    · have hvoting : voting (e :: l) = voting l := by simp [voting, he]
      have hnone : addAll (e :: l) c = addAll l (c.add e.1 e.2) := rfl
      rw [hvoting, hnone, Nat.eq_zero_of_not_pos he, add_zero_votes]
      exact ih c

theorem add_spec {shift who votes : ℕ} {c : VoteCounter Key} (hpos : 0 < votes)
    (hshift : (if c.bitshift = -1 then max ((Nat.log2 votes : ℤ) - 15) 0 else c.bitshift) = shift)
    (hweight : scaledVotes shift votes ≤ 65535) (hfits : c.totalVotes + 65535 < 2 ^ 64)
    (hnew : who ∉ c.auth.accountAuths.map Prod.fst) :
    (c.add who votes).bitshift = shift ∧
      (c.add who votes).totalVotes = c.totalVotes + scaledVotes shift votes ∧
      (c.add who votes).auth.accountAuths.Perm ((who, scaledVotes shift votes) :: c.auth.accountAuths) ∧
      (c.add who votes).auth.keyAuths = c.auth.keyAuths := by
  have hscaled : max (votes >>> (shift : ℤ).toNat) 1 = scaledVotes shift votes := rfl
  unfold add
  rw [if_neg hpos.ne']
  simp only [hshift, hscaled]
  refine ⟨trivial, Nat.mod_eq_of_lt (by omega), ?_, rfl⟩
  -- a weight has 16 bits
  rw [Nat.mod_eq_of_lt (by omega)]
  exact Protocol.setWeight_perm hnew

/-- What a counter holds after some accounts were added to it. -/
structure Counted (shift : ℕ) (c : VoteCounter Key) (l : List (ℕ × ℕ)) (c' : VoteCounter Key) : Prop where
  total : c'.totalVotes = c.totalVotes + (l.map fun e => scaledVotes shift e.2).sum
  members : c'.auth.accountAuths.Perm (c.auth.accountAuths ++ l.map fun e => (e.1, scaledVotes shift e.2))
  keys : c'.auth.keyAuths = c.auth.keyAuths

/-- The loop over the accounts, by induction on them, once the shift is fixed. -/
theorem counted_addAll {shift : ℕ} : ∀ (l : List (ℕ × ℕ)) (c : VoteCounter Key), c.bitshift = shift →
    (∀ e ∈ l, 0 < e.2 ∧ scaledVotes shift e.2 ≤ 65535) → c.totalVotes + 65535 * l.length < 2 ^ 64 →
    (l.map Prod.fst).Nodup → (∀ e ∈ l, e.1 ∉ c.auth.accountAuths.map Prod.fst) →
    Counted shift c l (addAll l c)
  | [], c, _, _, _, _, _ => ⟨by simp [addAll], by simp [addAll], rfl⟩
  | e :: l, c, hshift, hvotes, hfits, hdistinct, hnew => by
    rw [List.length_cons, Nat.mul_succ] at hfits
    have hroom : c.totalVotes + 65535 < 2 ^ 64 :=
      (Nat.add_le_add_left (Nat.le_add_left _ _) _).trans_lt hfits
    obtain ⟨hpos, hweight⟩ := hvotes e List.mem_cons_self
    rw [List.map_cons, List.nodup_cons] at hdistinct
    have hgiven : (if c.bitshift = -1 then max ((Nat.log2 e.2 : ℤ) - 15) 0 else c.bitshift) = shift := by
      rw [hshift, if_neg (by omega)]
    obtain ⟨hshift', htotal, hmembers, hkeys⟩ :=
      add_spec hpos hgiven hweight hroom (hnew e List.mem_cons_self)
    have ih := counted_addAll l (c.add e.1 e.2) hshift'
      (fun e' he' => hvotes e' (.tail e he')) ?_ hdistinct.2 ?_
    · refine ⟨?_, ?_, ih.keys.trans hkeys⟩
      · show (addAll l (c.add e.1 e.2)).totalVotes = _
        rw [ih.total, htotal, List.map_cons, List.sum_cons, add_assoc]
      · refine ih.members.trans ?_
        rw [List.map_cons]
        exact (hmembers.append_right _).trans List.perm_middle.symm
    · calc (c.add e.1 e.2).totalVotes + 65535 * l.length
          = c.totalVotes + scaledVotes shift e.2 + 65535 * l.length := by rw [htotal]
        _ ≤ c.totalVotes + 65535 + 65535 * l.length := by gcongr
        _ = c.totalVotes + (65535 * l.length + 65535) := by ring
        _ < 2 ^ 64 := hfits
    · -- the accounts that are left are not among the members
      intro e' he' hmem
      rw [(hmembers.map Prod.fst).mem_iff, List.map_cons, List.mem_cons] at hmem
      rcases hmem with heq | hmem
      · exact hdistinct.1 (List.mem_map.mpr ⟨e', he', heq⟩)
      · exact hnew e' (.tail e he') hmem

end VoteCounter

/-- A sequence of accounts and votes, in the order in which `vote_counter` expects them. -/
structure Ranked (l : List (ℕ × ℕ)) : Prop where
  distinct : (l.map Prod.fst).Nodup
  sorted : l.Pairwise fun a b => b.2 ≤ a.2
  count : (voting l).length ≤ 65535

section Weights

variable {l : List (ℕ × ℕ)}

theorem mem_voting {e : ℕ × ℕ} : e ∈ voting l ↔ e ∈ l ∧ 0 < e.2 := by
  simp [voting]

/-- No weight is larger than the first one. -/
theorem Ranked.scaledVotes_le (h : Ranked l) {e : ℕ × ℕ} (he : e ∈ voting l) :
    scaledVotes (voteShift l) e.2 ≤ 65535 := by
  have hsorted : (voting l).Pairwise fun a b => b.2 ≤ a.2 := h.sorted.filter _
  unfold voteShift
  cases hl : voting l with
  | nil => simp [hl] at he
  | cons first rest =>
    rw [hl] at he hsorted
    have hle : e.2 ≤ first.2 := by
      rcases List.mem_cons.mp he with rfl | he
      · exact le_rfl
      · exact (List.pairwise_cons.mp hsorted).1 e he
    exact (scaledVotes_mono hle).trans (scaledVotes_first first.2)

/-- **What the counter holds at the end.** -/
theorem Ranked.counted (h : Ranked l) : VoteCounter.Counted (voteShift l) ({} : VoteCounter Key) (voting l)
    (VoteCounter.addAll l {}) := by
  have hdistinct : ((voting l).map Prod.fst).Nodup :=
    h.distinct.sublist ((List.filter_sublist).map Prod.fst)
  have hvotes : ∀ e ∈ voting l, 0 < e.2 ∧ scaledVotes (voteShift l) e.2 ≤ 65535 :=
    fun e he => ⟨(mem_voting.mp he).2, h.scaledVotes_le he⟩
  have hfits : 65535 * (voting l).length < 2 ^ 64 := by
    have hcount := h.count
    omega
  rw [← VoteCounter.addAll_voting]
  have hshift : voteShift l = ((voting l).head?.map fun e => Nat.log2 e.2 - 15).getD 0 := rfl
  cases hl : voting l with
  | nil => exact ⟨rfl, .refl _, rfl⟩
  | cons first rest =>
    rw [hl] at hdistinct hvotes hfits hshift
    -- the first account fixes the shift, so the counter could have had it from the start
    have hfirst : VoteCounter.addAll (first :: rest) ({} : VoteCounter Key) =
        VoteCounter.addAll (first :: rest) ({ bitshift := voteShift l } : VoteCounter Key) := by
      have hlog : max ((Nat.log2 first.2 : ℤ) - 15) 0 = (voteShift l : ℤ) := by
        rw [hshift]
        show _ = ((Nat.log2 first.2 - 15 : ℕ) : ℤ)
        omega
      have hadd : ({} : VoteCounter Key).add first.1 first.2 =
          ({ bitshift := voteShift l } : VoteCounter Key).add first.1 first.2 := by
        simp [VoteCounter.add, hlog, (hvotes first List.mem_cons_self).1.ne']
      show VoteCounter.addAll rest (VoteCounter.add first.1 first.2 _) = _
      rw [hadd]
      rfl
    rw [hfirst]
    have hcounted := VoteCounter.counted_addAll (first :: rest)
      ({ bitshift := voteShift l } : VoteCounter Key) rfl hvotes (by simpa using hfits) hdistinct (by simp [Authority.empty])
    exact ⟨hcounted.total, hcounted.members, hcounted.keys⟩

/-- The sum of the weights has 32 bits. -/
theorem Ranked.sum_scaledVotes_le (h : Ranked l) :
    ((voting l).map fun e => scaledVotes (voteShift l) e.2).sum ≤ 65535 * 65535 := by
  calc ((voting l).map fun e => scaledVotes (voteShift l) e.2).sum
      ≤ ((voting l).map fun e => scaledVotes (voteShift l) e.2).length • 65535 := by
        refine List.sum_le_card_nsmul _ _ fun w hw => ?_
        obtain ⟨e, he, rfl⟩ := List.mem_map.mp hw
        exact h.scaledVotes_le he
    _ = (voting l).length * 65535 := by rw [List.length_map, smul_eq_mul]
    _ ≤ 65535 * 65535 := Nat.mul_le_mul_right _ h.count

theorem le_sum_scaledVotes (shift : ℕ) (l : List (ℕ × ℕ)) :
    l.length ≤ (l.map fun e => scaledVotes shift e.2).sum := by
  have hle := List.card_nsmul_le_sum (l.map fun e => scaledVotes shift e.2) 1 fun w hw => by
    obtain ⟨e, -, rfl⟩ := List.mem_map.mp hw
    exact one_le_scaledVotes shift e.2
  simpa using hle

variable {outAuth : Authority Key}

theorem Ranked.countVotes_of_nil (h : Ranked l) (hnone : voting l = []) :
    countVotes l outAuth = outAuth := by
  refine if_pos ?_
  have hcounted : VoteCounter.Counted (voteShift l) ({} : VoteCounter Key) (voting l) _ := h.counted
  rw [hcounted.total, hnone]
  rfl

/-- **The authority that is written.** The threshold is taken from the total that the counter keeps beside the
members, which is the sum of their weights. -/
theorem Ranked.weights_countVotes (h : Ranked l) (hsome : voting l ≠ []) (outAuth : Authority Key) :
    (countVotes l outAuth).accountAuths.Perm
        ((voting l).map fun e => (e.1, scaledVotes (voteShift l) e.2)) ∧
      (countVotes l outAuth).keyAuths = [] ∧
      (countVotes l outAuth).weightThreshold = (countVotes l outAuth).totalWeight / 2 + 1 := by
  have hcounted : VoteCounter.Counted (voteShift l) ({} : VoteCounter Key) (voting l) _ := h.counted
  have htotal : (VoteCounter.addAll l ({} : VoteCounter Key)).totalVotes =
      ((voting l).map fun e => scaledVotes (voteShift l) e.2).sum := by
    rw [hcounted.total]
    exact Nat.zero_add _
  have hne : (VoteCounter.addAll l ({} : VoteCounter Key)).totalVotes ≠ 0 := by
    have hlength := List.length_pos_of_ne_nil hsome
    have hle := le_sum_scaledVotes (voteShift l) (voting l)
    omega
  have hmembers : (VoteCounter.addAll l ({} : VoteCounter Key)).auth.accountAuths.Perm
      ((voting l).map fun e => (e.1, scaledVotes (voteShift l) e.2)) := hcounted.members
  have hsum : (VoteCounter.addAll l ({} : VoteCounter Key)).auth.totalWeight =
      ((voting l).map fun e => scaledVotes (voteShift l) e.2).sum := by
    show (List.map Prod.snd _).sum = _
    rw [(hmembers.map Prod.snd).sum_eq, List.map_map]
    rfl
  have hfits : ((voting l).map fun e => scaledVotes (voteShift l) e.2).sum < 2 ^ 32 :=
    h.sum_scaledVotes_le.trans_lt (by omega)
  unfold countVotes VoteCounter.finish
  rw [if_neg hne]
  refine ⟨hmembers, hcounted.keys, ?_⟩
  show (_ % 2 ^ 32) >>> 1 + 1 = (VoteCounter.addAll l ({} : VoteCounter Key)).auth.totalWeight / 2 + 1
  rw [hsum, htotal, Nat.mod_eq_of_lt hfits, Nat.shiftRight_one]

end Weights

/-! ### Majorities -/

/-- An authority of the accounts that have votes, weighted by them, which takes more than half of the weight. -/
structure SoundMajority [LinearOrder Key] (l : List (ℕ × ℕ)) (auth : Authority Key) : Prop where
  /-- Who has votes is a member, with a weight of 16 bits. -/
  weight : ∀ e ∈ l, 0 < e.2 → ∃ w, (e.1, w) ∈ auth.accountAuths ∧ 1 ≤ w ∧ w ≤ 65535
  /-- Nobody else is. -/
  voted : ∀ m ∈ auth.accountAuths, ∃ e ∈ l, e.1 = m.1 ∧ 0 < e.2
  onlyAccounts : auth.keyAuths = []
  /-- More votes do not give less weight. -/
  monotone : ∀ e ∈ l, ∀ e' ∈ l, e.2 ≤ e'.2 → ∀ w w', (e.1, w) ∈ auth.accountAuths →
    (e'.1, w') ∈ auth.accountAuths → w ≤ w'
  threshold : auth.weightThreshold = auth.totalWeight / 2 + 1
  satisfiable : auth.SatisfiedBy (auth.accountAuths.map Prod.fst).toFinset
  /-- Two sets without a common member do not both satisfy it. -/
  majority : ∀ S T : Finset ℕ, Disjoint S T → auth.SatisfiedBy S → ¬ auth.SatisfiedBy T

/-- Members of disjoint sets have no more weight than all members. -/
theorem weightOf_add_le (auth : Authority Key) {S T : Finset ℕ} (h : Disjoint S T) :
    auth.weightOf S + auth.weightOf T ≤ auth.totalWeight := by
  unfold Protocol.Authority.weightOf Protocol.Authority.totalWeight
  induction auth.accountAuths with
  | nil => simp
  | cons m members ih =>
    by_cases hS : m.1 ∈ S
    · have hT : m.1 ∉ T := Finset.disjoint_left.mp h hS
      simp only [hS, hT, List.filter_cons, decide_true, decide_false, if_true, List.map_cons, List.sum_cons]
      simp only [Bool.false_eq_true, if_false]
      omega
    · by_cases hT : m.1 ∈ T
      · simp only [hS, hT, List.filter_cons, decide_true, decide_false, if_true, List.map_cons, List.sum_cons]
        simp only [Bool.false_eq_true, if_false]
        omega
      · simp only [hS, hT, List.filter_cons, decide_false, List.map_cons, List.sum_cons]
        simp only [Bool.false_eq_true, if_false]
        omega

/-- **The authorities of `vote_counter` are sound majorities**, if anyone has votes, and otherwise nothing is
written. -/
theorem vote_counter_sound [LinearOrder Key] {l : List (ℕ × ℕ)} (h : Ranked l) (outAuth : Authority Key) :
    ((∃ e ∈ l, 0 < e.2) → SoundMajority l (countVotes l outAuth)) ∧
      ((∀ e ∈ l, e.2 = 0) → countVotes l outAuth = outAuth) := by
  constructor
  · rintro ⟨first, hfirst, hpos⟩
    have hsome : voting l ≠ [] := List.ne_nil_of_mem (mem_voting.mpr ⟨hfirst, hpos⟩)
    obtain ⟨hmembers, hkeys, hthreshold⟩ := h.weights_countVotes hsome outAuth
    set auth := countVotes l outAuth with hauth
    -- a member has the weight of its votes
    have hmem : ∀ a w, (a, w) ∈ auth.accountAuths ↔
        ∃ e ∈ l, 0 < e.2 ∧ e.1 = a ∧ scaledVotes (voteShift l) e.2 = w := by
      intro a w
      rw [hmembers.mem_iff, List.mem_map]
      simp only [mem_voting, Prod.mk.injEq, and_assoc]
    have htotal : auth.totalWeight = ((voting l).map fun e => scaledVotes (voteShift l) e.2).sum := by
      show (List.map Prod.snd _).sum = _
      rw [(hmembers.map Prod.snd).sum_eq, List.map_map]
      rfl
    have hfits : auth.totalWeight < 2 ^ 32 := by
      rw [htotal]
      exact h.sum_scaledVotes_le.trans_lt (by omega)
    have hsatisfied := fun S => Protocol.Authority.satisfiedBy_iff hkeys hfits S
    refine ⟨?_, ?_, hkeys, ?_, hthreshold, ?_, ?_⟩
    · intro e he hvotes
      exact ⟨_, (hmem _ _).mpr ⟨e, he, hvotes, rfl, rfl⟩, one_le_scaledVotes _ _,
        h.scaledVotes_le (mem_voting.mpr ⟨he, hvotes⟩)⟩
    · rintro ⟨a, w⟩ hm
      obtain ⟨e, he, hvotes, ha, -⟩ := (hmem a w).mp hm
      exact ⟨e, he, ha, hvotes⟩
    · intro e he e' he' hle w w' hw hw'
      obtain ⟨e₁, he₁, -, heq, rfl⟩ := (hmem _ _).mp hw
      obtain ⟨e₂, he₂, -, heq', rfl⟩ := (hmem _ _).mp hw'
      -- the accounts are distinct, so these are the votes of the two
      obtain rfl := List.inj_on_of_nodup_map h.distinct he₁ he heq
      obtain rfl := List.inj_on_of_nodup_map h.distinct he₂ he' heq'
      exact scaledVotes_mono hle
    · rw [hsatisfied, hthreshold]
      have hall : auth.weightOf (auth.accountAuths.map Prod.fst).toFinset = auth.totalWeight := by
        unfold Protocol.Authority.weightOf Protocol.Authority.totalWeight
        rw [List.filter_eq_self.mpr fun m hm => ?_]
        simpa using ⟨m.2, hm⟩
      have hpositive : 0 < auth.totalWeight := by
        rw [htotal]
        exact (List.length_pos_of_ne_nil hsome).trans_le (le_sum_scaledVotes _ _)
      rw [hall]
      omega
    · intro S T hdisjoint hS hT
      rw [hsatisfied, hthreshold] at hS hT
      have hboth := weightOf_add_le auth hdisjoint
      omega
  · intro hnone
    refine h.countVotes_of_nil (List.filter_eq_nil_iff.mpr fun e he => ?_)
    simp [hnone e he]

/-! ### Where the votes come from -/

/-- "Update witness authority" of `update_active_witnesses`, from the hard fork 533 on. The accounts are those of
the witnesses, which are in the order of their votes. -/
def updateWitnessAuthority (v : VoteBuffers) (witnessAccount : Database.Candidate → ℕ)
    (wits : List Database.Candidate) (active : Authority Key) : Authority Key :=
  (wits.foldl (fun vc wit => vc.add (witnessAccount wit) (v.voteTally.getD wit.voteId 0))
    ({} : VoteCounter Key)).finish active

/-- "Update committee authorities" of `update_active_committee_members`. -/
def updateCommitteeAuthority (v : VoteBuffers) (committeeMemberAccount : Database.Candidate → ℕ)
    (committeeMembers : List Database.Candidate) (active : Authority Key) : Authority Key :=
  if committeeMembers.isEmpty then active
  else
    (committeeMembers.foldl
      (fun vc cm => vc.add (committeeMemberAccount cm) (v.voteTally.getD cm.voteId 0))
      ({} : VoteCounter Key)).finish active

/-- What `update_top_n_authorities` reads of an `account_balance_object`. -/
structure Holder where
  owner : ℕ
  balance : ℕ

/-- The loop of `update_top_n_authorities` over the holders of an asset, largest first. The account itself is
passed over. -/
def addHolders (acct : ℕ) : ℕ → List Holder → VoteCounter Key → VoteCounter Key
  | _, [], vc => vc
  | numNeeded, bal :: range, vc =>
    if bal.owner = acct then addHolders acct numNeeded range vc
    else
      let vc := vc.add bal.owner bal.balance
      if numNeeded - 1 = 0 then vc else addHolders acct (numNeeded - 1) range vc

/-- `update_top_n_authorities` for one special authority: the authority that it controls, and whether the account is
marked as controlled by its top holders. -/
def updateTopNAuthority (acct numTopHolders : ℕ) (range : List Holder) (controlled : Authority Key) :
    Authority Key × Bool :=
  if numTopHolders = 0 then (controlled, false)
  else
    let vc := addHolders acct numTopHolders range ({} : VoteCounter Key)
    (vc.finish controlled, !vc.isEmpty)

/-- The accounts of candidates, with their votes. -/
def candidateVotes (v : VoteBuffers) (account : Database.Candidate → ℕ) (elected : List Database.Candidate) :
    List (ℕ × ℕ) :=
  elected.map fun a => (account a, v.voteTally.getD a.voteId 0)

/-- The accounts of the largest holders of an asset, with their balances. -/
def holderVotes (acct numTopHolders : ℕ) (range : List Holder) : List (ℕ × ℕ) :=
  ((range.filter fun bal => bal.owner ≠ acct).take numTopHolders).map fun bal => (bal.owner, bal.balance)

theorem updateWitnessAuthority_eq (v : VoteBuffers) (witnessAccount : Database.Candidate → ℕ)
    (wits : List Database.Candidate) (active : Authority Key) :
    updateWitnessAuthority v witnessAccount wits active =
      countVotes (candidateVotes v witnessAccount wits) active := by
  simp only [updateWitnessAuthority, countVotes, candidateVotes, VoteCounter.addAll, List.foldl_map]

theorem updateCommitteeAuthority_eq (v : VoteBuffers) (committeeMemberAccount : Database.Candidate → ℕ)
    (committeeMembers : List Database.Candidate) (active : Authority Key) :
    updateCommitteeAuthority v committeeMemberAccount committeeMembers active =
      countVotes (candidateVotes v committeeMemberAccount committeeMembers) active := by
  unfold updateCommitteeAuthority
  cases committeeMembers with
  | nil => rfl
  | cons cm committeeMembers =>
    simp only [List.isEmpty_cons, Bool.false_eq_true, if_false, countVotes, candidateVotes, VoteCounter.addAll,
      List.foldl_map]

/-- The loop over the holders, by induction on those that are left. -/
theorem addHolders_eq (acct : ℕ) : ∀ (range : List Holder) (numNeeded : ℕ) (vc : VoteCounter Key),
    0 < numNeeded → addHolders acct numNeeded range vc = VoteCounter.addAll (holderVotes acct numNeeded range) vc
  | [], numNeeded, vc, _ => by simp [addHolders, holderVotes, VoteCounter.addAll]
  | bal :: range, numNeeded, vc, hpos => by
    unfold addHolders
    by_cases hself : bal.owner = acct
    · have hskip : holderVotes acct numNeeded (bal :: range) = holderVotes acct numNeeded range := by
        simp [holderVotes, hself]
      rw [if_pos hself, hskip]
      exact addHolders_eq acct range numNeeded vc hpos
    · obtain ⟨n, rfl⟩ : ∃ n, numNeeded = n + 1 := ⟨numNeeded - 1, by omega⟩
      have htake : holderVotes acct (n + 1) (bal :: range) =
          (bal.owner, bal.balance) :: holderVotes acct n range := by
        simp [holderVotes, hself]
      rw [if_neg hself, htake, Nat.add_sub_cancel]
      show (if n = 0 then _ else _) = VoteCounter.addAll (holderVotes acct n range) (vc.add bal.owner bal.balance)
      by_cases hlast : n = 0
      · rw [if_pos hlast, hlast]
        simp [holderVotes, VoteCounter.addAll]
      · rw [if_neg hlast]
        exact addHolders_eq acct range n _ (Nat.pos_of_ne_zero hlast)

theorem updateTopNAuthority_eq (acct numTopHolders : ℕ) (range : List Holder) (controlled : Authority Key) :
    (updateTopNAuthority acct numTopHolders range controlled).1 =
      countVotes (holderVotes acct numTopHolders range) controlled := by
  unfold updateTopNAuthority
  by_cases hzero : numTopHolders = 0
  · rw [if_pos hzero, hzero]
    rfl
  · rw [if_neg hzero, addHolders_eq acct range numTopHolders _ (Nat.pos_of_ne_zero hzero)]
    rfl

/-- Elected candidates come in the order that `vote_counter` expects, if their accounts are distinct. -/
theorem ranked_candidateVotes {v : VoteBuffers} {account : Database.Candidate → ℕ}
    {candidates elected : List Database.Candidate} {count : ℕ}
    (h : Database.Elected v candidates count elected) (hcount : count ≤ 65535)
    (haccount : ∀ a ∈ candidates, ∀ b ∈ candidates, account a = account b → a = b)
    (htally : ∀ a ∈ candidates, v.voteTally.getD a.voteId 0 < 2 ^ 63) : Ranked (candidateVotes v account elected) where
  distinct := by
    unfold candidateVotes
    rw [List.map_map]
    refine List.Nodup.map_on (fun a ha b hb hab => ?_) h.distinct
    exact haccount a (h.candidate a ha) b (h.candidate b hb) hab
  sorted := by
    unfold candidateVotes
    rw [List.pairwise_map]
    refine h.ordered.imp_of_mem fun {a b} ha hb hab => ?_
    -- the order goes by the votes as a `share_type`, which are the same here
    rw [Database.ranksAhead_iff, Database.votesFor_of_lt (htally a (h.candidate a ha)),
      Database.votesFor_of_lt (htally b (h.candidate b hb))] at hab
    omega
  count := by
    have hle : (voting (candidateVotes v account elected)).length ≤ elected.length := by
      refine (List.length_filter_le _ _).trans ?_
      rw [candidateVotes, List.length_map]
    have hlength := h.length
    omega

/-- The holders of an asset come in the order that `vote_counter` expects: the index has them by their balances, and
an account has one balance of the asset. -/
theorem ranked_holderVotes {acct numTopHolders : ℕ} {range : List Holder} (hnum : numTopHolders ≤ 255)
    (howners : (range.map Holder.owner).Nodup) (hsorted : range.Pairwise fun a b => b.balance ≤ a.balance) :
    Ranked (holderVotes acct numTopHolders range) where
  distinct := by
    unfold holderVotes
    rw [List.map_map]
    exact howners.sublist (((List.take_sublist _ _).trans List.filter_sublist).map _)
  sorted := by
    unfold holderVotes
    rw [List.pairwise_map]
    exact hsorted.sublist ((List.take_sublist _ _).trans List.filter_sublist)
  count := by
    refine (List.length_filter_le _ _).trans ?_
    rw [holderVotes, List.length_map, List.length_take]
    omega

section Example

/-- Two of three accounts have votes. The larger votes keep 16 bits, the smaller ones would have no weight. -/
theorem vote_counter_sound_two :
    SoundMajority [(7, 2 ^ 40), (3, 9), (5, 0)] (countVotes [(7, 2 ^ 40), (3, 9), (5, 0)] (.empty : Authority ℕ)) ∧
      (countVotes [(7, 2 ^ 40), (3, 9), (5, 0)] (.empty : Authority ℕ)).accountAuths = [(3, 1), (7, 32768)] ∧
      (countVotes [(7, 2 ^ 40), (3, 9), (5, 0)] (.empty : Authority ℕ)).weightThreshold = 16385 :=
  ⟨(vote_counter_sound ⟨by decide, by decide, by decide⟩ _).1 ⟨(7, 2 ^ 40), by decide, by decide⟩,
    by decide, by decide⟩

end Example

end FinChain.Chain
