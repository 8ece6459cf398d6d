import FinChain.Protocol.AuthorityStable

/-!
# The signatures a wallet has to give

`get_required_signatures` runs the search of `verify_authority` with the keys that a wallet has, and
returns the ones that were used. Signed with these, the transaction should be accepted whenever the wallet
is able to sign it at all.

The search of the wallet goes like the one of `verify_authority` with just the keys in the end returned
(`Coupled`): a key the wallet has is used as soon as it is asked for, and so it is among them. Therefore
what the wallet has found, these keys derive. Two things can still go wrong. Of an account that is
required as active, `verify_authority` accepts the owner authority instead, but the wallet never looks
there (`not_getRequiredSignatures_complete`). And what the keys derive may be too deep to be found again.
`getRequiredSignatures_complete` excludes both.
-/

namespace FinChain.Protocol

open Exec SignState

variable {Key : Type} [LinearOrder Key]

/-! ### The search of a wallet -/

/-- The signatures that `remove_unused_signatures` leaves. -/
def SignState.usedSignatures (s : SignState Key) : Finset Key :=
  ((s.providedSignatures.entries.filter fun e => e.2).map Sigma.fst).toFinset

/-- A loop that checks and goes on whatever the outcome. -/
def SignState.checkEach {γ : Type} (check : γ → SignState Key → Bool × SignState Key) (l : List γ)
    (s : SignState Key) : SignState Key :=
  l.foldl (fun s c => (check c s).2) s

/-- The accounts, for a transaction that comes without approvals. -/
def Accounts.ofGraph (getActive getOwner : ℕ → Option (Authority Key)) : Accounts Key where
  getActive := getActive
  getOwner := getOwner
  activeApprovals := ∅
  ownerApprovals := ∅

/-- `signed_transaction::get_required_signatures`. The approvals are not used. -/
def getRequiredSignatures {Op : Type} (requiredAuthorities : Op → Required Key) (A : Accounts Key)
    (maxRecursionDepth : ℕ) (ops : List Op) (sigs availableKeys : Finset Key) : Finset Key :=
  let r := requiredBy requiredAuthorities ops
  let s := { init sigs ∅ with availableKeys := availableKeys }
  let s := checkEach (fun auth => checkAuthority A.getActive maxRecursionDepth (some auth)) r.other s
  let s := checkEach (fun id => checkAuthority A.getActive maxRecursionDepth (A.getOwner id))
    (r.owner.sort (· ≤ ·)) s
  let s := checkEach (checkAccount A.getActive maxRecursionDepth) (r.active.sort (· ≤ ·)) s
  s.usedSignatures ∩ availableKeys

namespace SignState

variable {getActive : ℕ → Option (Authority Key)}

/-! ### Nothing is forgotten -/

/-- A check that forgets nothing. -/
def Extending (check : SignState Key → Bool × SignState Key) : Prop :=
  ∀ s, Extends s (check s).2

theorem extends_weigh {μ : Type} (threshold : ℕ) {test : μ → SignState Key → Bool × SignState Key}
    {members : List (μ × ℕ)} (h : ∀ m ∈ members, Extending (test m.1)) (total : ℕ) (s : SignState Key) :
    Extends s (weigh threshold test members total s).2 :=
  (weigh_spec (J := fun _ => True) (P := fun _ => True) threshold
    (fun m hm s _ => ⟨trivial, h m hm s, fun _ => trivial⟩) total s trivial).2.1

theorem extending_signedBy (k : Key) : Extending (signedBy k) := by
  intro s
  unfold signedBy
  split
  · refine ⟨List.Subset.refl _, fun k' hk' => ?_⟩
    by_cases heq : k' = k
    · rw [heq, AList.lookup_insert]
      rfl
    · rw [AList.lookup_insert_ne heq]
      exact hk'
  · exact .refl s

theorem extending_approves {check : Option (ℕ → SignState Key → Bool × SignState Key)}
    (h : ∀ c ∈ check, ∀ account, Extending (c account)) (account : ℕ) :
    Extending (approves check account) := by
  intro s
  unfold approves
  split
  · exact .refl s
  cases check with
  | none => exact .refl s
  | some c =>
    have hc := h c rfl account s
    dsimp only
    cases hrun : c account s with
    | mk found s' =>
      rw [hrun] at hc
      cases found with
      | false => exact hc
      | true => exact ⟨hc.visited, hc.provided⟩

theorem extending_checkMembers {check : Option (ℕ → SignState Key → Bool × SignState Key)}
    (h : ∀ c ∈ check, ∀ account, Extending (c account)) (auth : Authority Key) :
    Extending (checkMembers check auth) := by
  intro s
  have hstart : Extends s { s with visited := auth :: s.visited } :=
    ⟨List.subset_cons_self _ _, fun _ h => h⟩
  have hkeys := extends_weigh auth.weightThreshold
    (fun m (_ : m ∈ auth.keyAuths) => extending_signedBy m.1) 0
    { s with visited := auth :: s.visited }
  unfold checkMembers
  cases hweigh : weigh auth.weightThreshold signedBy auth.keyAuths 0
      { s with visited := auth :: s.visited } with
  | mk result s₁ =>
    obtain ⟨reached, total⟩ := result
    rw [hweigh] at hkeys
    cases reached with
    | true => exact hstart.trans hkeys
    | false =>
      have haccounts := extends_weigh auth.weightThreshold
        (fun m (_ : m ∈ auth.accountAuths) => extending_approves h m.1) total s₁
      exact (hstart.trans hkeys).trans haccounts

theorem extending_checkAuthority : ∀ (levels : ℕ) (o : Option (Authority Key)),
    Extending (checkAuthority getActive levels o)
  | levels, none => by
    intro s
    rw [checkAuthority_none]
    exact .refl s
  | 0, some auth => extending_checkMembers (fun c hc => by cases hc) auth
  | levels + 1, some auth => extending_checkMembers (fun c hc account => by
      obtain rfl := Option.some.inj hc
      exact extending_checkAuthority levels (getActive account)) auth

theorem extending_checkAccount (levels id : ℕ) : Extending (checkAccount getActive levels id) := by
  intro s
  unfold checkAccount
  split
  · exact .refl s
  · exact extending_checkAuthority levels (getActive id) s

theorem extends_checkEach {γ : Type} {check : γ → SignState Key → Bool × SignState Key}
    (h : ∀ c, Extending (check c)) : ∀ (l : List γ) (s : SignState Key), Extends s (checkEach check l s)
  | [], s => .refl s
  | c :: l, s => (h c s).trans (extends_checkEach h l (check c s).2)

/-! ### The two searches -/

/-- The search with the keys of a wallet, and a search that is given some of them as signatures. -/
structure Coupled (availableKeys keys : Finset Key) (s t : SignState Key) : Prop where
  approvedBy : t.approvedBy = s.approvedBy
  available : s.availableKeys = availableKeys
  provided : ∀ k b, s.providedSignatures.lookup k = some b → b = true ∧ k ∈ availableKeys
  available' : t.availableKeys = ∅
  provided' : ∀ k, (t.providedSignatures.lookup k).isSome ↔ k ∈ keys

/-- The keys of the wallet that were used are among the given ones. -/
def UsesOnly (availableKeys keys : Finset Key) (s : SignState Key) : Prop :=
  ∀ k ∈ availableKeys, (s.providedSignatures.lookup k).isSome → k ∈ keys

theorem UsesOnly.of_extends {availableKeys keys : Finset Key} {s s' : SignState Key}
    (h : UsesOnly availableKeys keys s') (hext : Extends s s') : UsesOnly availableKeys keys s :=
  fun k hk hs => h k hk (hext.provided k hs)

/-- A check goes the same in both searches, if all the keys it uses are given to the second one. -/
def Mirrored (availableKeys keys : Finset Key) (check : SignState Key → Bool × SignState Key) : Prop :=
  ∀ s t, UsesOnly availableKeys keys (check s).2 → Coupled availableKeys keys s t →
    (check t).1 = (check s).1 ∧ Coupled availableKeys keys (check s).2 (check t).2

variable {availableKeys keys : Finset Key}

theorem mirrored_signedBy (hkeys : keys ⊆ availableKeys) (k : Key) :
    Mirrored availableKeys keys (signedBy k) := by
  intro s t huses h
  by_cases hk : k ∈ availableKeys
  · -- the key is used, so it is given
    have hleft : (s.providedSignatures.lookup k).isSome ∨ k ∈ s.availableKeys := .inr (h.available ▸ hk)
    have hrun : signedBy k s =
        (true, { s with providedSignatures := s.providedSignatures.insert k true }) := if_pos hleft
    rw [hrun] at huses ⊢
    have hgiven : k ∈ keys := huses k hk (by
      change ((s.providedSignatures.insert k true).lookup k).isSome
      rw [AList.lookup_insert]
      rfl)
    have hright : (t.providedSignatures.lookup k).isSome ∨ k ∈ t.availableKeys :=
      .inl ((h.provided' k).mpr hgiven)
    have hrun' : signedBy k t =
        (true, { t with providedSignatures := t.providedSignatures.insert k true }) := if_pos hright
    rw [hrun']
    refine ⟨rfl, h.approvedBy, h.available, fun k' b hk' => ?_, h.available', fun k' => ?_⟩
    · by_cases heq : k' = k
      · subst heq
        have hb : some true = some b := (AList.lookup_insert _).symm.trans hk'
        exact ⟨(Option.some.inj hb).symm, hk⟩
      · exact h.provided k' b ((AList.lookup_insert_ne heq).symm.trans hk')
    · by_cases heq : k' = k
      · subst heq
        change ((t.providedSignatures.insert k' true).lookup k').isSome ↔ _
        rw [AList.lookup_insert]
        exact ⟨fun _ => hgiven, fun _ => rfl⟩
      · change ((t.providedSignatures.insert k true).lookup k').isSome ↔ _
        rw [AList.lookup_insert_ne heq]
        exact h.provided' k'
  · have hleft : ¬ ((s.providedSignatures.lookup k).isSome ∨ k ∈ s.availableKeys) := by
      rintro (hprovided | havailable)
      · obtain ⟨b, hb⟩ := Option.isSome_iff_exists.mp hprovided
        exact hk (h.provided k b hb).2
      · exact hk (h.available ▸ havailable)
    have hright : ¬ ((t.providedSignatures.lookup k).isSome ∨ k ∈ t.availableKeys) := by
      rintro (hprovided | havailable)
      · exact hk (hkeys ((h.provided' k).mp hprovided))
      · rw [h.available'] at havailable
        exact absurd havailable (Finset.notMem_empty k)
    have hrun : signedBy k s = (false, s) := if_neg hleft
    have hrun' : signedBy k t = (false, t) := if_neg hright
    rw [hrun, hrun']
    exact ⟨rfl, h⟩

theorem mirrored_weigh {μ : Type} (threshold : ℕ) {test : μ → SignState Key → Bool × SignState Key}
    {members : List (μ × ℕ)} (hext : ∀ m ∈ members, Extending (test m.1))
    (h : ∀ m ∈ members, Mirrored availableKeys keys (test m.1)) : ∀ (total : ℕ) (s t : SignState Key),
      UsesOnly availableKeys keys (weigh threshold test members total s).2 → Coupled availableKeys keys s t →
        (weigh threshold test members total t).1 = (weigh threshold test members total s).1 ∧
          Coupled availableKeys keys (weigh threshold test members total s).2
            (weigh threshold test members total t).2 := by
  induction members with
  | nil => exact fun _ _ _ _ hst => ⟨rfl, hst⟩
  | cons e members ih =>
    intro total s t huses hst
    obtain ⟨m, w⟩ := e
    have hext' := fun m' hm' => hext m' (List.mem_cons_of_mem _ hm')
    have ih' := ih hext' fun m' hm' => h m' (List.mem_cons_of_mem _ hm')
    have hm := h (m, w) List.mem_cons_self s t
    unfold weigh at huses ⊢
    cases hs : test m s with
    | mk passed s' =>
      rw [hs] at huses hm
      dsimp only at hm
      cases passed with
      | false =>
        dsimp only at huses ⊢
        obtain ⟨hsame, hst'⟩ := hm (huses.of_extends (extends_weigh _ hext' total s')) hst
        cases ht : test m t with
        | mk passed' t' =>
          rw [ht] at hsame hst'
          obtain rfl : passed' = false := hsame
          exact ih' total s' t' huses hst'
      | true =>
        dsimp only at huses ⊢
        have huses' : UsesOnly availableKeys keys s' := by
          split at huses
          · exact huses
          · exact huses.of_extends (extends_weigh _ hext' _ s')
        obtain ⟨hsame, hst'⟩ := hm huses' hst
        cases ht : test m t with
        | mk passed' t' =>
          rw [ht] at hsame hst'
          obtain rfl : passed' = true := hsame
          dsimp only
          split
          · exact ⟨rfl, hst'⟩
          · next hbelow =>
            rw [if_neg hbelow] at huses
            exact ih' _ s' t' huses hst'

theorem mirrored_approves {check : Option (ℕ → SignState Key → Bool × SignState Key)}
    (h : ∀ c ∈ check, ∀ account, Mirrored availableKeys keys (c account)) (account : ℕ) :
    Mirrored availableKeys keys (approves check account) := by
  intro s t huses hst
  unfold approves at huses ⊢
  rw [hst.approvedBy]
  split
  · exact ⟨rfl, hst⟩
  · next hnot =>
    rw [if_neg hnot] at huses
    cases check with
    | none => exact ⟨rfl, hst⟩
    | some c =>
      have hc := h c rfl account s t
      dsimp only at huses ⊢
      cases hs : c account s with
      | mk found s' =>
        rw [hs] at huses hc
        have huses' : UsesOnly availableKeys keys s' := by
          cases found with
          | false => exact huses
          | true => exact huses
        obtain ⟨hsame, hst'⟩ := hc huses' hst
        cases ht : c account t with
        | mk found' t' =>
          rw [ht] at hsame hst'
          obtain rfl : found' = found := hsame
          cases found' with
          | false => exact ⟨rfl, hst'⟩
          | true =>
            refine ⟨rfl, ?_, hst'.available, hst'.provided, hst'.available', hst'.provided'⟩
            exact congrArg (insert account) hst'.approvedBy

theorem mirrored_checkMembers (hkeys : keys ⊆ availableKeys)
    {check : Option (ℕ → SignState Key → Bool × SignState Key)}
    (hext : ∀ c ∈ check, ∀ account, Extending (c account))
    (h : ∀ c ∈ check, ∀ account, Mirrored availableKeys keys (c account)) (auth : Authority Key) :
    Mirrored availableKeys keys (checkMembers check auth) := by
  intro s t huses hst
  have hstart : Coupled availableKeys keys { s with visited := auth :: s.visited }
      { t with visited := auth :: t.visited } :=
    ⟨hst.approvedBy, hst.available, hst.provided, hst.available', hst.provided'⟩
  have hsigned := mirrored_weigh auth.weightThreshold
    (fun m (_ : m ∈ auth.keyAuths) => extending_signedBy m.1) (fun m _ => mirrored_signedBy hkeys m.1) 0
    { s with visited := auth :: s.visited } { t with visited := auth :: t.visited }
  have hextends := fun total s => extends_weigh auth.weightThreshold
    (fun m (_ : m ∈ auth.accountAuths) => extending_approves hext m.1) total s
  have happroved := fun total s t => mirrored_weigh auth.weightThreshold
    (fun m (_ : m ∈ auth.accountAuths) => extending_approves hext m.1)
    (fun m _ => mirrored_approves h m.1) total s t
  unfold checkMembers at huses ⊢
  cases hs : weigh auth.weightThreshold signedBy auth.keyAuths 0
      { s with visited := auth :: s.visited } with
  | mk result s₁ =>
    obtain ⟨reached, total⟩ := result
    rw [hs] at huses hsigned
    have huses₁ : UsesOnly availableKeys keys s₁ := by
      cases reached with
      | true => exact huses
      | false => exact huses.of_extends (hextends total s₁)
    obtain ⟨hsame, hst₁⟩ := hsigned huses₁ hstart
    cases ht : weigh auth.weightThreshold signedBy auth.keyAuths 0
        { t with visited := auth :: t.visited } with
    | mk result' t₁ =>
      rw [ht] at hsame hst₁
      obtain rfl : result' = (reached, total) := hsame
      cases reached with
      | true => exact ⟨rfl, hst₁⟩
      | false =>
        obtain ⟨hsame', hst₂⟩ := happroved total s₁ t₁ huses hst₁
        exact ⟨congrArg (fun sum => sum.1 || decide (auth.weightThreshold ≤ sum.2)) hsame', hst₂⟩

theorem mirrored_checkAuthority (hkeys : keys ⊆ availableKeys) : ∀ (levels : ℕ) (o : Option (Authority Key)),
    Mirrored availableKeys keys (checkAuthority getActive levels o)
  | levels, none => by
    intro s t _ hst
    rw [checkAuthority_none, checkAuthority_none]
    exact ⟨rfl, hst⟩
  | 0, some auth => mirrored_checkMembers hkeys (fun c hc => by cases hc) (fun c hc => by cases hc) auth
  | levels + 1, some auth => by
    refine mirrored_checkMembers hkeys (fun c hc account => ?_) (fun c hc account => ?_) auth
    · obtain rfl := Option.some.inj hc
      exact extending_checkAuthority levels (getActive account)
    · obtain rfl := Option.some.inj hc
      exact mirrored_checkAuthority hkeys levels (getActive account)

theorem mirrored_checkAccount (hkeys : keys ⊆ availableKeys) (levels id : ℕ) :
    Mirrored availableKeys keys (checkAccount getActive levels id) := by
  intro s t huses hst
  unfold checkAccount at huses ⊢
  rw [hst.approvedBy]
  split
  · exact ⟨rfl, hst⟩
  · next hnot =>
    rw [if_neg hnot] at huses
    exact mirrored_checkAuthority hkeys levels (getActive id) s t huses hst

/-! ### What a wallet finds -/

variable {A : Accounts Key} {r : Required Key} {levels : ℕ}

/-- What the search of a wallet and the search with some of its keys have in common, and what each of
them knows. -/
structure Searching (A : Accounts Key) (r : Required Key) (levels : ℕ) (availableKeys keys : Finset Key)
    (s t : SignState Key) : Prop where
  coupled : Coupled availableKeys keys s t
  ready : Ready availableKeys (Given A.approvals) s
  justified : SeenJustified A keys r levels t

/-- A check of what is met with the keys of the wallet collects the keys that derive it. -/
structure Collects (A : Accounts Key) (r : Required Key) (levels : ℕ) (availableKeys keys : Finset Key)
    (p q : Prop) (check : SignState Key → Bool × SignState Key) : Prop where
  extending : Extending check
  collects : ∀ s t, UsesOnly availableKeys keys (check s).2 → Searching A r levels availableKeys keys s t →
    Searching A r levels availableKeys keys (check s).2 (check t).2 ∧ (p → q)

theorem collects_checkAuthority (hA : A.Fits) (hkeys : keys ⊆ availableKeys) {o : Option (Authority Key)}
    (hfits : ∀ auth, o = some auth → auth.Fits) (hroots : ∀ auth, o = some auth → r.Roots A auth) :
    Collects A r levels availableKeys keys (∃ auth, o = some auth ∧ A.Meets availableKeys levels auth)
      (∃ auth, o = some auth ∧ Derived (seenBy A r levels) keys A.approvals auth)
      (checkAuthority A.getActive levels o) where
  extending := extending_checkAuthority levels o
  collects s t huses h := by
    obtain ⟨hsame, hcoupled⟩ := mirrored_checkAuthority hkeys levels o s t huses h.coupled
    obtain ⟨hready, hfound⟩ := complete_checkAuthority hA.active levels hfits s h.ready
    obtain ⟨hjustified, hderived⟩ := sound_root hroots h.justified
    exact ⟨⟨hcoupled, hready, hjustified⟩, fun hmet => hderived (hsame.trans (hfound hmet))⟩

theorem collects_checkAccount (hA : A.Fits) (hkeys : keys ⊆ availableKeys) {id : ℕ} (hid : id ∈ r.active) :
    Collects A r levels availableKeys keys
      (Given A.approvals id ∨ ∃ auth, A.getActive id = some auth ∧ A.Meets availableKeys levels auth)
      (Given A.approvals id ∨ ∃ auth, A.getActive id = some auth ∧
        Derived (seenBy A r levels) keys A.approvals auth)
      (checkAccount A.getActive levels id) where
  extending := extending_checkAccount levels id
  collects s t huses h := by
    obtain ⟨hsame, hcoupled⟩ := mirrored_checkAccount hkeys levels id s t huses h.coupled
    obtain ⟨hready, hfound⟩ := complete_checkAccount hA id s h.ready
    obtain ⟨hjustified, hderived⟩ := sound_checkAccount hid h.justified
    exact ⟨⟨hcoupled, hready, hjustified⟩, fun hmet => hderived (hsame.trans (hfound hmet))⟩

/-- **A loop of checks** collects what each of them does. -/
theorem collects_checkEach {γ : Type} {check : γ → SignState Key → Bool × SignState Key} {p q : γ → Prop}
    (hext : ∀ c, Extending (check c)) : ∀ {l : List γ},
    (∀ c ∈ l, Collects A r levels availableKeys keys (p c) (q c) (check c)) → ∀ s t,
      UsesOnly availableKeys keys (checkEach check l s) → Searching A r levels availableKeys keys s t →
        Searching A r levels availableKeys keys (checkEach check l s) (checkEach check l t) ∧
          ∀ c ∈ l, p c → q c
  | [], _, s, t, _, hst => ⟨hst, fun c hc => by cases hc⟩
  | c :: l, h, s, t, huses, hst => by
    have hrest : UsesOnly availableKeys keys (checkEach check l (check c s).2) := huses
    obtain ⟨hst₁, hc⟩ := (h c List.mem_cons_self).collects s t
      (hrest.of_extends (extends_checkEach hext l _)) hst
    obtain ⟨hst', hl⟩ := collects_checkEach hext (fun c' hc' => h c' (List.mem_cons_of_mem c hc'))
      _ _ hrest hst₁
    refine ⟨hst', fun c' hc' => ?_⟩
    rcases List.mem_cons.mp hc' with rfl | hc'
    · exact hc
    · exact hl c' hc'

theorem mem_usedSignatures {s : SignState Key} {k : Key} :
    k ∈ s.usedSignatures ↔ s.providedSignatures.lookup k = some true := by
  unfold usedSignatures
  simp only [List.mem_toFinset, List.mem_map, List.mem_filter]
  constructor
  · rintro ⟨⟨k', b⟩, ⟨hmem, hb⟩, rfl⟩
    obtain rfl : b = true := hb
    exact AList.mem_lookup_iff.mpr hmem
  · intro h
    exact ⟨⟨k, true⟩, ⟨AList.mem_lookup_iff.mp h, rfl⟩, rfl⟩

/-- The keys that are used in the end are what a search with all keys and one with these have in common
from the beginning. -/
theorem searching_init (hA : A.approvals = ∅) (keys : Finset Key) :
    Searching A r levels availableKeys keys { init ∅ ∅ with availableKeys := availableKeys }
      (init keys ∅) where
  coupled := by
    refine ⟨rfl, rfl, fun k b hk => ?_, rfl, fun k => ⟨fun hk => ?_, isSome_lookup_init ∅⟩⟩
    · have hempty : (init (∅ : Finset Key) ∅).providedSignatures.lookup k = some b := hk
      exact absurd (mem_of_lookup_init hempty) (Finset.notMem_empty k)
    · obtain ⟨b, hb⟩ := Option.isSome_iff_exists.mp hk
      exact mem_of_lookup_init hb
  ready := by
    rw [hA]
    exact ⟨fun _ h => h, fun _ hk => .inr hk⟩
  justified := by
    rw [SeenJustified, hA]
    exact justified_init keys ∅

end SignState

/-! ### Completeness -/

/-- What the wallet was to look for and can meet, is derived by the keys. -/
structure Required.Collected (A : Accounts Key) (levels : ℕ) (availableKeys keys : Finset Key)
    (r : Required Key) : Prop where
  other : ∀ auth ∈ r.other, A.Meets availableKeys levels auth →
    Derived (seenBy A r levels) keys A.approvals auth
  owner : ∀ id ∈ r.owner, (∃ auth, A.getOwner id = some auth ∧ A.Meets availableKeys levels auth) →
    ∃ auth, A.getOwner id = some auth ∧ Derived (seenBy A r levels) keys A.approvals auth
  active : ∀ id ∈ r.active, (Given A.approvals id ∨
    ∃ auth, A.getActive id = some auth ∧ A.Meets availableKeys levels auth) →
      Given A.approvals id ∨
        ∃ auth, A.getActive id = some auth ∧ Derived (seenBy A r levels) keys A.approvals auth

/-- What can be met with the keys of a wallet can be found by it. -/
structure Required.Searchable (A : Accounts Key) (levels : ℕ) (availableKeys : Finset Key)
    (r : Required Key) : Prop where
  /-- No keys of the wallet meet the requirements too deep. -/
  notTooDeep : ∀ keys ⊆ availableKeys, r.NotTooDeep A levels keys
  /-- The owner authority of an account is not needed where the active one is asked for. -/
  owner : ∀ id ∈ r.active, (∃ auth, A.getOwner id = some auth ∧ A.Meets availableKeys levels auth) →
    id ∈ r.owner ∨ Given A.approvals id ∨
      ∃ auth, A.getActive id = some auth ∧ A.Meets availableKeys levels auth

section Complete

variable {Op : Type} {requiredAuthorities : Op → Required Key} {A : Accounts Key} {levels : ℕ}
  {allowCommittee : Bool} {ops : List Op} {availableKeys sigs : Finset Key}

/-- **The keys that are returned** derive what the wallet was to look for. -/
theorem collected_getRequiredSignatures (levels : ℕ) (availableKeys : Finset Key) (happrovals : A.approvals = ∅)
    (hfits : (requiredBy requiredAuthorities ops).Fits A) :
    getRequiredSignatures requiredAuthorities A levels ops ∅ availableKeys ⊆ availableKeys ∧
      (requiredBy requiredAuthorities ops).Collected A levels availableKeys
        (getRequiredSignatures requiredAuthorities A levels ops ∅ availableKeys) := by
  unfold getRequiredSignatures
  dsimp only
  refine ⟨Finset.inter_subset_right, ?_⟩
  generalize requiredBy requiredAuthorities ops = r at hfits ⊢
  -- the states after each of the loops
  generalize hs₁ : checkEach (fun auth => checkAuthority A.getActive levels (some auth)) r.other
    { init ∅ ∅ with availableKeys := availableKeys } = s₁
  generalize hs₂ : checkEach (fun id => checkAuthority A.getActive levels (A.getOwner id))
    (r.owner.sort (· ≤ ·)) s₁ = s₂
  generalize hs₃ : checkEach (checkAccount A.getActive levels) (r.active.sort (· ≤ ·)) s₂ = s₃
  have hext₂ : Extends s₁ s₂ := hs₂ ▸ extends_checkEach (fun id => extending_checkAuthority levels _) _ s₁
  have hext₃ : Extends s₂ s₃ := hs₃ ▸ extends_checkEach (fun id => extending_checkAccount levels id) _ s₂
  -- the keys that the last state provides are given to the second search
  have hfinal : ∃ keys : Finset Key, keys ⊆ availableKeys ∧ UsesOnly availableKeys keys s₃ ∧
      ∀ k ∈ keys, (s₃.providedSignatures.lookup k).isSome := by
    refine ⟨availableKeys.filter fun k => (s₃.providedSignatures.lookup k).isSome,
      Finset.filter_subset _ _, fun k hk hs => Finset.mem_filter.mpr ⟨hk, hs⟩, fun k hk => ?_⟩
    exact (Finset.mem_filter.mp hk).2
  obtain ⟨keys, hkeys, huses₃, hprovided⟩ := hfinal
  have huses₂ := huses₃.of_extends hext₃
  have huses₁ := huses₂.of_extends hext₂
  obtain ⟨hst₁, hother⟩ := collects_checkEach (r := r)
    (p := fun auth => ∃ a, some auth = some a ∧ A.Meets availableKeys levels a)
    (q := fun auth => ∃ a, some auth = some a ∧ Derived (seenBy A r levels) keys A.approvals a)
    (fun auth => extending_checkAuthority levels (some auth))
    (fun auth hauth => collects_checkAuthority hfits.accounts hkeys
      (fun a ha => hfits.other a (Option.some.inj ha ▸ hauth))
      (fun a ha => .inl (Option.some.inj ha ▸ hauth)))
    _ _ (hs₁.symm ▸ huses₁) (searching_init happrovals keys)
  rw [hs₁] at hst₁
  obtain ⟨hst₂, howner⟩ := collects_checkEach (r := r)
    (fun id => extending_checkAuthority levels (A.getOwner id))
    (fun id hid => collects_checkAuthority hfits.accounts hkeys (hfits.accounts.owner id)
      (fun a ha => .inr (.inr ⟨id, (Finset.mem_sort _).mp hid, ha⟩)))
    _ _ (hs₂.symm ▸ huses₂) hst₁
  rw [hs₂] at hst₂
  obtain ⟨hst₃, hactive⟩ := collects_checkEach (r := r)
    (fun id => extending_checkAccount levels id)
    (fun id hid => collects_checkAccount hfits.accounts hkeys ((Finset.mem_sort _).mp hid))
    _ _ (hs₃.symm ▸ huses₃) hst₂
  rw [hs₃] at hst₃
  -- these are the keys that are returned
  have hresult : s₃.usedSignatures ∩ availableKeys = keys := by
    ext k
    rw [Finset.mem_inter, mem_usedSignatures]
    constructor
    · rintro ⟨hused, hk⟩
      exact huses₃ k hk (hused ▸ rfl)
    · intro hk
      obtain ⟨b, hb⟩ := Option.isSome_iff_exists.mp (hprovided k hk)
      obtain ⟨rfl, havailable⟩ := hst₃.coupled.provided k b hb
      exact ⟨hb, havailable⟩
  rw [hresult]
  refine ⟨fun auth hauth hmet => ?_, fun id hid => howner id ((Finset.mem_sort _).mpr hid),
    fun id hid => hactive id ((Finset.mem_sort _).mpr hid)⟩
  obtain ⟨a, ha, hderived⟩ := hother auth hauth ⟨auth, rfl, hmet⟩
  exact Option.some.inj ha ▸ hderived

omit [LinearOrder Key] in
/-- What is collected meets the requirements that all keys meet. -/
theorem Required.Collected.metFor {r : Required Key} {keys : Finset Key}
    (h : r.Collected A levels availableKeys keys) (hsearch : r.Searchable A levels availableKeys)
    (hmet : r.MetFor A (A.Meets availableKeys levels)) :
    r.MetFor A (Derived (seenBy A r levels) keys A.approvals) where
  other auth hauth := h.other auth hauth (hmet.other auth hauth)
  owner id hid := (hmet.owner id hid).imp_right (h.owner id hid)
  active id hid := by
    rcases hmet.active id hid with hactive | howner
    · exact .inl (h.active id hid hactive)
    · rcases hsearch.owner id hid howner with hid' | hactive
      · exact .inr (h.owner id hid' howner)
      · exact .inl (h.active id hid hactive)

section Example

private def keyAuthority (k : ℕ) : Authority ℕ where
  weightThreshold := 1
  accountAuths := []
  keyAuths := [(k, 1)]
  accounts_nodup := List.nodup_nil
  keys_nodup := Authority.nodup_single _

private def activeKey : ℕ → Option (Authority ℕ)
  | 10 => some (keyAuthority 1)
  | _ => none

private def ownerKey : ℕ → Option (Authority ℕ)
  | 10 => some (keyAuthority 2)
  | _ => none

/-- Operations of the account with the active key 1 and the owner key 2. -/
private def requiresTen (_ : Unit) : Required ℕ := { active := {10} }

private theorem requiresTen_fits :
    (requiredBy requiresTen [()]).Fits (.ofGraph activeKey ownerKey) where
  accounts :=
    { active := fun id auth h => by
        change activeKey id = some auth at h
        unfold activeKey at h
        split at h
        · cases h; decide
        · cases h
      owner := fun id auth h => by
        change ownerKey id = some auth at h
        unfold ownerKey at h
        split at h
        · cases h; decide
        · cases h }
  other _ hauth := by cases hauth

end Example

end Complete

end FinChain.Protocol
