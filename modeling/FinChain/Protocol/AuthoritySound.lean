import FinChain.Protocol.Authority
import Mathlib.Data.List.Sublists

/-!
# Accepted signatures prove every requirement

`Derived` says what a sufficient set of approvals is, without any search: the weights of some
members of an authority add up to its threshold, and each of these members is a key that has signed,
or an account that is approved or whose active authority is derived in turn. Being inductive, it
leaves no room for accounts that approve each other in a circle.

The search is sound because the two things it remembers mean something (`Justified`): an account
that is taken to approve has a derivation, and a signature that counts as used is a key of an
authority that was looked at. `weigh` adds up only members that pass its test (`weigh_spec`), so
this carries over from the test of a member to the test of an authority, by induction on the depth.
-/

namespace FinChain.Protocol

variable {Key : Type} [LinearOrder Key]

section Derivations

variable (getActive : ℕ → Option (Authority Key)) (keys : Finset Key) (approved : Finset ℕ)

mutual

/-- An authority that is met. Its members are taken from the maps, each of them at most once. -/
inductive Derived : Authority Key → Prop
  | intro {auth : Authority Key} {signers : List (Key × ℕ)} {approvers : List (ℕ × ℕ)}
      (hsigners : signers.Sublist auth.keyAuths) (happrovers : approvers.Sublist auth.accountAuths)
      (hkeys : ∀ m ∈ signers, m.1 ∈ keys) (haccounts : ∀ m ∈ approvers, Vouched m.1)
      (hweight : auth.weightThreshold ≤
        (signers.map Prod.snd).sum + (approvers.map Prod.snd).sum) : Derived auth

/-- An account that approves. -/
inductive Vouched : ℕ → Prop
  | temp : Vouched tempAccount
  | approved {account : ℕ} (h : account ∈ approved) : Vouched account
  | active {account : ℕ} {auth : Authority Key} (hactive : getActive account = some auth)
      (h : Derived auth) : Vouched account

end

end Derivations

/-- The authorities a search may look at: those that are required, and the active authorities of
members. -/
inductive Visitable (getActive : ℕ → Option (Authority Key)) (roots : Authority Key → Prop) :
    Authority Key → Prop
  | root {auth : Authority Key} (h : roots auth) : Visitable getActive roots auth
  | member {auth auth' : Authority Key} {m : ℕ × ℕ} (h : Visitable getActive roots auth)
      (hm : m ∈ auth.accountAuths) (hactive : getActive m.1 = some auth') :
      Visitable getActive roots auth'

namespace SignState

variable {getActive : ℕ → Option (Authority Key)} {keys : Finset Key} {approved : Finset ℕ}
  {roots : Authority Key → Prop}

/-- What a `sign_state` remembers is justified. -/
structure Justified (getActive : ℕ → Option (Authority Key)) (keys : Finset Key)
    (approved : Finset ℕ) (roots : Authority Key → Prop) (s : SignState Key) : Prop where
  approvedBy : ∀ account ∈ s.approvedBy, Vouched getActive keys approved account
  provided : ∀ k b, s.providedSignatures.lookup k = some b → k ∈ keys
  available : s.availableKeys = ∅
  used : ∀ k, s.providedSignatures.lookup k = some true →
    ∃ auth ∈ s.visited, k ∈ auth.keyAuths.map Prod.fst
  visited : ∀ auth ∈ s.visited, Visitable getActive roots auth

/-- Nothing is forgotten. -/
structure Extends (s s' : SignState Key) : Prop where
  visited : s.visited ⊆ s'.visited
  provided : ∀ k, (s.providedSignatures.lookup k).isSome → (s'.providedSignatures.lookup k).isSome

theorem Extends.refl (s : SignState Key) : Extends s s :=
  ⟨List.Subset.refl _, fun _ h => h⟩

theorem Extends.trans {s₁ s₂ s₃ : SignState Key} (h₁ : Extends s₁ s₂) (h₂ : Extends s₂ s₃) :
    Extends s₁ s₃ :=
  ⟨List.Subset.trans h₁.visited h₂.visited, fun k h => h₂.provided k (h₁.provided k h)⟩

/-- A test is good when it keeps what is remembered justified, and members that pass it have the
property `P`. -/
def Good (J : SignState Key → Prop) {μ : Type} (P : μ → Prop)
    (test : μ → SignState Key → Bool × SignState Key) (m : μ) : Prop :=
  ∀ s, J s → J (test m s).2 ∧ Extends s (test m s).2 ∧ ((test m s).1 = true → P m)

/-- **The loop over members** counts members that have passed the test, each of them once. -/
theorem weigh_spec {J : SignState Key → Prop} {μ : Type} {P : μ → Prop} (threshold : ℕ)
    {test : μ → SignState Key → Bool × SignState Key} {members : List (μ × ℕ)} :
    (∀ m ∈ members, Good J P test m.1) → ∀ (total : ℕ) (s : SignState Key), J s →
      J (weigh threshold test members total s).2 ∧
      Extends s (weigh threshold test members total s).2 ∧
      ∃ counted : List (μ × ℕ), counted.Sublist members ∧ (∀ m ∈ counted, P m.1) ∧
        (weigh threshold test members total s).1.2 ≤ total + (counted.map Prod.snd).sum ∧
        ((weigh threshold test members total s).1.1 = true →
          threshold ≤ (weigh threshold test members total s).1.2) := by
  induction members with
  | nil =>
    intro _ total s hs
    exact ⟨hs, .refl s, [], List.Sublist.slnil, by simp, by simp [weigh], by simp [weigh]⟩
  | cons e members ih =>
    obtain ⟨m, w⟩ := e
    intro hgood total s hs
    have hrest : ∀ m' ∈ members, Good J P test m'.1 := fun m' hm' => hgood m' (.tail _ hm')
    have htest := hgood (m, w) (.head _) s hs
    unfold weigh
    cases htested : test m s with
    | mk passed s' =>
      rw [htested] at htest
      obtain ⟨hs', hext, hpass⟩ := htest
      cases passed with
      | false =>
        obtain ⟨hJ, hext', counted, hsub, hP, hsum, hreach⟩ := ih hrest total s' hs'
        exact ⟨hJ, hext.trans hext', counted, hsub.cons _, hP, hsum, hreach⟩
      | true =>
        have hm : P m := hpass rfl
        have hmod : (total + w) % 2 ^ 32 ≤ total + w := Nat.mod_le _ _
        simp only
        split
        · next hreached =>
          refine ⟨hs', hext, [(m, w)], ?_, ?_, ?_, fun _ => hreached⟩
          · exact (List.nil_sublist members).cons_cons (m, w)
          · intro m' hm'
            rw [List.mem_singleton] at hm'
            rw [hm']
            exact hm
          · simpa using hmod
        · obtain ⟨hJ, hext', counted, hsub, hP, hsum, hreach⟩ :=
            ih hrest ((total + w) % 2 ^ 32) s' hs'
          refine ⟨hJ, hext.trans hext', (m, w) :: counted, hsub.cons_cons _, ?_, ?_, hreach⟩
          · intro m' hm'
            rcases List.mem_cons.mp hm' with rfl | hm'
            · exact hm
            · exact hP m' hm'
          · rw [List.map_cons, List.sum_cons]
            omega

theorem good_signedBy {auth : Authority Key} {m : Key × ℕ} (hm : m ∈ auth.keyAuths) :
    Good (fun s => Justified getActive keys approved roots s ∧ auth ∈ s.visited) (· ∈ keys) signedBy
      m.1 := by
  rintro s ⟨hs, hauth⟩
  unfold signedBy
  split
  · next hsigned =>
    have hprovided : (s.providedSignatures.lookup m.1).isSome := by
      rw [hs.available] at hsigned
      simpa using hsigned
    obtain ⟨b, hb⟩ := Option.isSome_iff_exists.mp hprovided
    have hkey : m.1 ∈ keys := hs.provided _ _ hb
    refine ⟨⟨⟨hs.approvedBy, ?_, hs.available, ?_, hs.visited⟩, hauth⟩, ⟨List.Subset.refl _, ?_⟩,
      fun _ => hkey⟩
    · intro k b' hk
      by_cases hkm : k = m.1
      · rw [hkm]
        exact hkey
      · exact hs.provided k b' ((AList.lookup_insert_ne hkm).symm.trans hk)
    · intro k hk
      by_cases hkm : k = m.1
      · exact ⟨auth, hauth, hkm ▸ List.mem_map_of_mem hm⟩
      · exact hs.used k ((AList.lookup_insert_ne hkm).symm.trans hk)
    · intro k hk
      by_cases hkm : k = m.1
      · rw [hkm, AList.lookup_insert]
        rfl
      · rw [AList.lookup_insert_ne hkm]
        exact hk
  · exact ⟨⟨hs, hauth⟩, .refl s, fun h => by cases h⟩

/-- What a search in the active authority of an account has to do. -/
def Searches (getActive : ℕ → Option (Authority Key)) (keys : Finset Key) (approved : Finset ℕ)
    (roots : Authority Key → Prop) (check : ℕ → SignState Key → Bool × SignState Key)
    (account : ℕ) : Prop :=
  Good (Justified getActive keys approved roots)
    (fun a => ∃ auth, getActive a = some auth ∧ Derived getActive keys approved auth) check account

theorem good_approves {check : Option (ℕ → SignState Key → Bool × SignState Key)} {account : ℕ}
    (hcheck : ∀ c ∈ check, Searches getActive keys approved roots c account) :
    Good (Justified getActive keys approved roots) (Vouched getActive keys approved)
      (approves check) account := by
  intro s hs
  unfold approves
  split
  · next hmem => exact ⟨hs, .refl s, fun _ => hs.approvedBy account hmem⟩
  cases check with
  | none => exact ⟨hs, .refl s, fun h => by cases h⟩
  | some c =>
    have hsearch := hcheck c rfl s hs
    simp only
    cases hc : c account s with
    | mk found s' =>
      rw [hc] at hsearch
      obtain ⟨hs', hext, hfound⟩ := hsearch
      cases found with
      | false => exact ⟨hs', hext, fun h => by cases h⟩
      | true =>
        obtain ⟨auth, hactive, hderived⟩ := hfound rfl
        have hvouched : Vouched getActive keys approved account := .active hactive hderived
        refine ⟨⟨?_, hs'.provided, hs'.available, hs'.used, hs'.visited⟩, ⟨hext.visited, hext.provided⟩,
          fun _ => hvouched⟩
        intro a ha
        rcases Finset.mem_insert.mp ha with rfl | ha
        · exact hvouched
        · exact hs'.approvedBy a ha

/-- **The body of `check_authority`**: what it accepts is derived, if what the search in the members
accepts is. -/
theorem checkMembers_spec (check : Option (ℕ → SignState Key → Bool × SignState Key))
    {auth : Authority Key} {s : SignState Key} (hvisit : Visitable getActive roots auth)
    (hcheck : ∀ c ∈ check, ∀ m ∈ auth.accountAuths, Searches getActive keys approved roots c m.1)
    (hs : Justified getActive keys approved roots s) :
    Justified getActive keys approved roots (checkMembers check auth s).2 ∧
      Extends s (checkMembers check auth s).2 ∧
      ((checkMembers check auth s).1 = true → Derived getActive keys approved auth) := by
  -- the authority is recorded before its members are looked at
  have hstart : Justified getActive keys approved roots { s with visited := auth :: s.visited } := by
    refine ⟨hs.approvedBy, hs.provided, hs.available, ?_, ?_⟩
    · intro k hk
      obtain ⟨a, ha, hka⟩ := hs.used k hk
      exact ⟨a, .tail _ ha, hka⟩
    · intro a ha
      rcases List.mem_cons.mp ha with rfl | ha
      · exact hvisit
      · exact hs.visited a ha
  have hext₀ : Extends s { s with visited := auth :: s.visited } :=
    ⟨List.subset_cons_self _ _, fun _ h => h⟩
  have hkeysLoop := weigh_spec auth.weightThreshold (fun m hm => good_signedBy hm) 0 _
    (And.intro hstart (List.mem_cons_self))
  unfold checkMembers
  cases hweigh : weigh auth.weightThreshold signedBy auth.keyAuths 0
      { s with visited := auth :: s.visited } with
  | mk result s₁ =>
    obtain ⟨reached, total⟩ := result
    rw [hweigh] at hkeysLoop
    obtain ⟨⟨hs₁, -⟩, hext₁, signers, hsigners, hsigned, hsum, hreach⟩ := hkeysLoop
    rw [Nat.zero_add] at hsum
    cases reached with
    | true =>
      refine ⟨hs₁, hext₀.trans hext₁, fun _ => ?_⟩
      refine .intro hsigners (List.nil_sublist _) hsigned (by simp) ?_
      have hle : auth.weightThreshold ≤ total := hreach rfl
      simpa using hle.trans hsum
    | false =>
      have haccounts := weigh_spec auth.weightThreshold
        (fun m hm => good_approves fun c hc => hcheck c hc m hm) total s₁ hs₁
      simp only
      cases hweigh' : weigh auth.weightThreshold (approves check) auth.accountAuths total s₁ with
      | mk result' s₂ =>
        obtain ⟨reached', total'⟩ := result'
        rw [hweigh'] at haccounts
        obtain ⟨hs₂, hext₂, approvers, happrovers, happroved, hsum', hreach'⟩ := haccounts
        refine ⟨hs₂, (hext₀.trans hext₁).trans hext₂, fun haccepted => ?_⟩
        refine .intro hsigners happrovers hsigned happroved ?_
        have hle : auth.weightThreshold ≤ total' := by
          rcases Bool.or_eq_true _ _ ▸ haccepted with h | h
          · exact hreach' h
          · exact of_decide_eq_true h
        calc auth.weightThreshold ≤ total' := hle
          _ ≤ total + (approvers.map Prod.snd).sum := hsum'
          _ ≤ (signers.map Prod.snd).sum + (approvers.map Prod.snd).sum :=
            Nat.add_le_add_right hsum _

/-- **`check_authority`**, by induction on the depth that is left. -/
theorem checkAuthority_spec (levels : ℕ) : ∀ (auth : Option (Authority Key)) (s : SignState Key),
    (∀ a, auth = some a → Visitable getActive roots a) →
    Justified getActive keys approved roots s →
    Justified getActive keys approved roots (checkAuthority getActive levels auth s).2 ∧
      Extends s (checkAuthority getActive levels auth s).2 ∧
      ((checkAuthority getActive levels auth s).1 = true →
        ∃ a, auth = some a ∧ Derived getActive keys approved a) := by
  induction levels with
  | zero =>
    intro auth s hvisit hs
    cases auth with
    | none => exact ⟨hs, .refl s, fun h => by cases h⟩
    | some a =>
      obtain ⟨hs', hext, hderived⟩ :=
        checkMembers_spec none (hvisit a rfl) (fun c hc => by cases hc) hs
      exact ⟨hs', hext, fun h => ⟨a, rfl, hderived h⟩⟩
  | succ levels ih =>
    intro auth s hvisit hs
    cases auth with
    | none => exact ⟨hs, .refl s, fun h => by cases h⟩
    | some a =>
      have hmembers : ∀ m ∈ a.accountAuths, Searches getActive keys approved roots
          (fun account => checkAuthority getActive levels (getActive account)) m.1 := by
        intro m hm s₁ hs₁
        exact ih (getActive m.1) s₁ (fun a' ha' => .member (hvisit a rfl) hm ha') hs₁
      obtain ⟨hs', hext, hderived⟩ := checkMembers_spec
        (some fun account => checkAuthority getActive levels (getActive account)) (hvisit a rfl)
        (fun c hc m hm => Option.mem_some_iff.mp hc ▸ hmembers m hm) hs
      exact ⟨hs', hext, fun h => ⟨a, rfl, hderived h⟩⟩

theorem checkAccount_spec {levels id : ℕ} {s : SignState Key}
    (hvisit : ∀ a, getActive id = some a → Visitable getActive roots a)
    (hs : Justified getActive keys approved roots s) :
    Justified getActive keys approved roots (checkAccount getActive levels id s).2 ∧
      Extends s (checkAccount getActive levels id s).2 ∧
      ((checkAccount getActive levels id s).1 = true → Vouched getActive keys approved id) := by
  unfold checkAccount
  split
  · next hmem => exact ⟨hs, .refl s, fun _ => hs.approvedBy id hmem⟩
  · obtain ⟨hs', hext, hderived⟩ := checkAuthority_spec levels (getActive id) s hvisit hs
    refine ⟨hs', hext, fun h => ?_⟩
    obtain ⟨a, ha, hd⟩ := hderived h
    exact .active ha hd

/-- The constructor knows the signatures, and has used none of them. -/
theorem lookup_init (sigs : Finset Key) (approvals : Finset ℕ) (k : Key) :
    (init sigs approvals).providedSignatures.lookup k = if k ∈ sigs then some false else none := by
  have hfold : ∀ (l : List Key) (t : Table Key Bool) (k : Key),
      (l.foldl (fun t k => t.insert k false) t).lookup k =
        if k ∈ l then some false else t.lookup k := by
    intro l
    induction l with
    | nil =>
      intro t k
      simp
    | cons k' l ih =>
      intro t k
      rw [List.foldl_cons, ih]
      by_cases hkl : k ∈ l
      · simp [hkl]
      · by_cases hk : k = k'
        · subst hk
          simp [hkl]
        · simp [hkl, hk, AList.lookup_insert_ne hk]
  have hsorted := hfold (sigs.sort (· ≤ ·)) ∅ k
  rw [AList.lookup_empty] at hsorted
  simp only [Finset.mem_sort] at hsorted
  exact hsorted

theorem isSome_lookup_init {sigs : Finset Key} (approvals : Finset ℕ) {k : Key} (hk : k ∈ sigs) :
    ((init sigs approvals).providedSignatures.lookup k).isSome := by
  rw [lookup_init, if_pos hk]
  rfl

theorem mem_of_lookup_init {sigs : Finset Key} {approvals : Finset ℕ} {k : Key} {b : Bool}
    (h : (init sigs approvals).providedSignatures.lookup k = some b) : k ∈ sigs := by
  rw [lookup_init] at h
  by_contra hk
  rw [if_neg hk] at h
  cases h

/-- The constructor makes a justified state. -/
theorem justified_init (sigs : Finset Key) (approvals : Finset ℕ) :
    Justified getActive sigs approvals roots (init sigs approvals) := by
  refine ⟨?_, fun _ _ => mem_of_lookup_init, rfl, ?_, fun _ h => by cases h⟩
  · intro account h
    rcases Finset.mem_insert.mp h with rfl | h
    · exact .temp
    · exact .approved h
  · intro k h
    rw [lookup_init] at h
    split at h
    · cases h
    · cases h

end SignState

/-! ### Requirements -/

open SignState

variable {A : Accounts Key}

/-- The authorities that are required. -/
def Required.Roots (A : Accounts Key) (r : Required Key) (auth : Authority Key) : Prop :=
  auth ∈ r.other ∨ (∃ id ∈ r.active, A.getActive id = some auth ∨ A.getOwner id = some auth) ∨
    ∃ id ∈ r.owner, A.getOwner id = some auth

/-- The owner authority of an account is derived. -/
def OwnerDerived (A : Accounts Key) (keys : Finset Key) (id : ℕ) : Prop :=
  ∃ auth, A.getOwner id = some auth ∧
    Derived A.getActive keys (A.activeApprovals ∪ A.ownerApprovals) auth

/-- Every requirement is met. -/
structure Required.Met (A : Accounts Key) (keys : Finset Key) (r : Required Key) : Prop where
  other : ∀ auth ∈ r.other, Derived A.getActive keys (A.activeApprovals ∪ A.ownerApprovals) auth
  active : ∀ id ∈ r.active, Vouched A.getActive keys (A.activeApprovals ∪ A.ownerApprovals) id ∨
    OwnerDerived A keys id
  owner : ∀ id ∈ r.owner, id ∈ A.ownerApprovals ∨ OwnerDerived A keys id

/-- What was checked of one requirement. -/
def Meets (A : Accounts Key) (keys : Finset Key) (r : Required Key) (P : Prop)
    (f : SignM Key Unit) : Prop :=
  ∀ s s', Justified A.getActive keys (A.activeApprovals ∪ A.ownerApprovals) (r.Roots A) s →
    f s = .ok () s' →
    Justified A.getActive keys (A.activeApprovals ∪ A.ownerApprovals) (r.Roots A) s' ∧
      Extends s s' ∧ P

omit [LinearOrder Key] in
theorem demand_eq_ok {e : AuthorityError} {check : SignState Key → Bool × SignState Key}
    {s s' : SignState Key} {u : Unit} : demand e check s = .ok u s' ↔ check s = (true, s') := by
  unfold demand
  cases hc : check s with
  | mk b s₁ =>
    cases b with
    | true => simp
    | false => simp

section Requirements

variable {keys : Finset Key} {r : Required Key} {levels : ℕ}

theorem meets_forM {γ : Type} {P : γ → Prop} {f : γ → SignM Key Unit} (l : List γ) :
    (∀ c ∈ l, Meets A keys r (P c) (f c)) → Meets A keys r (∀ c ∈ l, P c) (l.forM f) := by
  induction l with
  | nil =>
    intro _ s s' hs h
    obtain ⟨-, rfl⟩ := Exec.pure_eq_ok.mp h
    exact ⟨hs, .refl s, by simp⟩
  | cons c l ih =>
    intro hf s s' hs h
    change (f c >>= fun _ => l.forM f) s = _ at h
    obtain ⟨_, s₁, hc, h⟩ := Exec.bind_eq_ok.mp h
    obtain ⟨hs₁, hext₁, hP⟩ := hf c (.head _) s s₁ hs hc
    obtain ⟨hs', hext', hPs⟩ := ih (fun c' hc' => hf c' (.tail _ hc')) s₁ s' hs₁ h
    refine ⟨hs', hext₁.trans hext', fun c' hc' => ?_⟩
    rcases List.mem_cons.mp hc' with rfl | hc'
    · exact hP
    · exact hPs c' hc'

theorem meets_other {auth : Authority Key} (hauth : auth ∈ r.other) :
    Meets A keys r (Derived A.getActive keys (A.activeApprovals ∪ A.ownerApprovals) auth)
      (demand .txMissingOtherAuth (checkAuthority A.getActive levels (some auth))) := by
  intro s s' hs h
  rw [demand_eq_ok] at h
  have hspec := checkAuthority_spec levels (some auth) s
    (fun a ha => .root (.inl (Option.some.inj ha ▸ hauth))) hs
  rw [h] at hspec
  obtain ⟨hs', hext, hderived⟩ := hspec
  obtain ⟨a, ha, hd⟩ := hderived rfl
  cases ha
  exact ⟨hs', hext, hd⟩

/-- The owner authority of an account whose owner authority may be asked for. -/
theorem ownerAuthority_spec (levels : ℕ) {id : ℕ} {s : SignState Key}
    (hroot : ∀ a, A.getOwner id = some a → r.Roots A a)
    (hs : Justified A.getActive keys (A.activeApprovals ∪ A.ownerApprovals) (r.Roots A) s) :
    Justified A.getActive keys (A.activeApprovals ∪ A.ownerApprovals) (r.Roots A)
        (checkAuthority A.getActive levels (A.getOwner id) s).2 ∧
      Extends s (checkAuthority A.getActive levels (A.getOwner id) s).2 ∧
      ((checkAuthority A.getActive levels (A.getOwner id) s).1 = true → OwnerDerived A keys id) :=
  checkAuthority_spec levels (A.getOwner id) s (fun a ha => .root (hroot a ha)) hs

theorem meets_active {id : ℕ} (hid : id ∈ r.active) :
    Meets A keys r
      (Vouched A.getActive keys (A.activeApprovals ∪ A.ownerApprovals) id ∨ OwnerDerived A keys id)
      (demand (.txMissingActiveAuth id) (orElse (checkAccount A.getActive levels id)
        (checkAuthority A.getActive levels (A.getOwner id)))) := by
  intro s s' hs h
  rw [demand_eq_ok, orElse] at h
  obtain ⟨hs₁, hext₁, hvouched⟩ := checkAccount_spec (s := s)
    (fun a ha => .root (.inr (.inl ⟨id, hid, .inl ha⟩))) hs
  cases hcheck : checkAccount A.getActive levels id s with
  | mk found s₁ =>
    rw [hcheck] at h hs₁ hext₁ hvouched
    cases found with
    | true =>
      cases h
      exact ⟨hs₁, hext₁, .inl (hvouched rfl)⟩
    | false =>
      change checkAuthority A.getActive levels (A.getOwner id) s₁ = _ at h
      have hspec := ownerAuthority_spec levels (fun a ha => .inr (.inl ⟨id, hid, .inr ha⟩)) hs₁
      rw [h] at hspec
      obtain ⟨hs', hext, howner⟩ := hspec
      exact ⟨hs', hext₁.trans hext, .inr (howner rfl)⟩

theorem meets_owner {id : ℕ} (hid : id ∈ r.owner) :
    Meets A keys r (id ∈ A.ownerApprovals ∨ OwnerDerived A keys id)
      (if id ∈ A.ownerApprovals then pure ()
        else demand (.txMissingOwnerAuth id)
          (checkAuthority A.getActive levels (A.getOwner id))) := by
  intro s s' hs h
  split at h
  · next hmem =>
    obtain ⟨-, rfl⟩ := Exec.pure_eq_ok.mp h
    exact ⟨hs, .refl s, .inl hmem⟩
  · rw [demand_eq_ok] at h
    have hspec := ownerAuthority_spec levels (fun a ha => .inr (.inr ⟨id, hid, ha⟩)) hs
    rw [h] at hspec
    obtain ⟨hs', hext, howner⟩ := hspec
    exact ⟨hs', hext, .inr (howner rfl)⟩

/-- **The loops of `verify_authority`**. -/
theorem meets_checkRequired : Meets A keys r (r.Met A keys) (checkRequired A levels r) := by
  intro s s' hs h
  unfold checkRequired at h
  obtain ⟨_, s₁, hother, h⟩ := Exec.bind_eq_ok.mp h
  obtain ⟨_, s₂, hactive, howner⟩ := Exec.bind_eq_ok.mp h
  obtain ⟨hs₁, hext₁, hmet₁⟩ := meets_forM _ (fun _ hauth => meets_other hauth) s s₁ hs hother
  obtain ⟨hs₂, hext₂, hmet₂⟩ :=
    meets_forM _ (fun _ hid => meets_active ((Finset.mem_sort _).mp hid)) s₁ s₂ hs₁ hactive
  obtain ⟨hs', hext', hmet'⟩ :=
    meets_forM _ (fun _ hid => meets_owner ((Finset.mem_sort _).mp hid)) s₂ s' hs₂ howner
  refine ⟨hs', (hext₁.trans hext₂).trans hext', hmet₁, fun id hid => ?_, fun id hid => ?_⟩
  · exact hmet₂ id ((Finset.mem_sort _).mpr hid)
  · exact hmet' id ((Finset.mem_sort _).mpr hid)

end Requirements

/-- All that the operations require. -/
def requiredBy {Op : Type} (requiredAuthorities : Op → Required Key) (ops : List Op) :
    Required Key :=
  ops.foldl (fun r op => r.add (requiredAuthorities op)) {}

/-- **Accepted signatures prove every requirement.** When `verify_authority` returns, every authority
that the operations require is derived, and every signature is by a key of an authority that was
looked at. -/
theorem verifyAuthority_sound {Op : Type} {requiredAuthorities : Op → Required Key}
    {A : Accounts Key} {maxRecursionDepth : ℕ} {allowCommittee : Bool} {ops : List Op}
    {sigs : Finset Key} {s : SignState Key}
    (h : verifyAuthority requiredAuthorities A maxRecursionDepth allowCommittee ops sigs = .ok s) :
    (requiredBy requiredAuthorities ops).Met A sigs ∧
      (∀ k ∈ sigs, ∃ auth ∈ s.visited, k ∈ auth.keyAuths.map Prod.fst) ∧
      ∀ auth ∈ s.visited,
        Visitable A.getActive ((requiredBy requiredAuthorities ops).Roots A) auth := by
  unfold verifyAuthority at h
  simp only at h
  split at h
  · cases h
  cases hcheck : checkRequired A maxRecursionDepth (requiredBy requiredAuthorities ops)
      (init sigs (A.activeApprovals ∪ A.ownerApprovals)) with
  | error e s₁ =>
    rw [requiredBy] at hcheck
    rw [hcheck] at h
    cases h
  | ok u s₁ =>
    obtain ⟨hs₁, hext, hmet⟩ := meets_checkRequired _ _
      (justified_init sigs (A.activeApprovals ∪ A.ownerApprovals)) hcheck
    rw [requiredBy] at hcheck
    rw [hcheck] at h
    simp only at h
    split at h
    · cases h
    · next hused =>
      cases h
      refine ⟨hmet, fun k hk => hs₁.used k ?_, hs₁.visited⟩
      -- the signature is still there, and none is left unused
      obtain ⟨b, hb⟩ := Option.isSome_iff_exists.mp (hext.provided k (isSome_lookup_init _ hk))
      cases b with
      | true => exact hb
      | false =>
        refine absurd ?_ hused
        exact List.any_eq_true.mpr ⟨⟨k, false⟩, AList.mem_lookup_iff.mp hb, rfl⟩

section Example

private def singleKey (k : ℕ) : Authority ℕ where
  weightThreshold := 1
  accountAuths := []
  keyAuths := [(k, 1)]
  accounts_nodup := List.nodup_nil
  keys_nodup := List.nodup_singleton _

/-- Two accounts that are members of each other, and that have a key each. -/
private def circle : Accounts ℕ where
  getActive
    | 10 => some
        { weightThreshold := 1
          accountAuths := [(11, 1)]
          keyAuths := [(7, 1)]
          accounts_nodup := List.nodup_singleton _
          keys_nodup := List.nodup_singleton _ }
    | 11 => some
        { weightThreshold := 1
          accountAuths := [(10, 1)]
          keyAuths := [(8, 1)]
          accounts_nodup := List.nodup_singleton _
          keys_nodup := List.nodup_singleton _ }
    | _ => none
  getOwner _ := some (singleKey 9)
  activeApprovals := ∅
  ownerApprovals := ∅

/-- A transaction of the first account, signed with the key of the second. -/
theorem verifyAuthority_sound_circle :
    (verifyAuthority (fun _ : Unit => { active := {10} }) circle 2 false [()] {8}).isOk = true ∧
      (requiredBy (fun _ : Unit => { active := {10} }) [()]).Met circle {8} := by
  have hok : (verifyAuthority (fun _ : Unit => { active := {10} }) circle 2 false [()]
      {8}).isOk = true := by
    simp only [verifyAuthority, checkRequired, init, Required.add, List.foldl_cons, List.foldl_nil,
      Finset.empty_union, Finset.sort_singleton, Finset.sort_empty]
    decide
  refine ⟨hok, ?_⟩
  cases h : verifyAuthority (fun _ : Unit => { active := {10} }) circle 2 false [()] {8} with
  | ok s => exact (verifyAuthority_sound h).1
  | error e =>
    rw [h] at hok
    cases hok

end Example

end FinChain.Protocol
