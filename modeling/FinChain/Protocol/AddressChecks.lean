import FinChain.Protocol.AddressAuthority
import FinChain.Protocol.AuthoritySound

/-!
# Checks with addresses

`check_authority` adds up the weights of the members that have signed, keys first, then addresses, then accounts.
Without addresses it is the check that is modelled with the keys and the accounts alone
(`checkAuthority_of_noAddresses`).

With the answer that is missing where `signed_by` is undefined (`answered`) a check would pass over the addresses that
have not signed. It does so if and only if it asks for no such address (`address_checks_iff`): the check
is guarded by the one with the missing answers, so the two are the same up to the first address that nobody has
signed for.
-/

namespace FinChain.Protocol

variable {Key Addr : Type}

/-! ### Without addresses -/

section NoAddresses

open MaybeM AddressState

/-- A function of a `sign_state` that does not look at addresses. -/
def ofSignState {α : Type} (x : SignState Key → α × SignState Key) : AddressM Key Addr α := fun s =>
  some ((x s.signState).1, { s with signState := (x s.signState).2 })

theorem weigh_ofSignState {μ : Type} (threshold : ℕ) (test : μ → SignState Key → Bool × SignState Key)
    (members : List (μ × ℕ)) (total : ℕ) :
    weigh threshold (fun m => (ofSignState (test m) : AddressM Key Addr Bool)) members total =
      ofSignState (SignState.weigh threshold test members total) := by
  induction members generalizing total with
  | nil => rfl
  | cons e members ih =>
    obtain ⟨m, w⟩ := e
    funext s
    unfold weigh
    rw [bind_apply]
    change (if (test m s.signState).1 = true then _ else _ : AddressM Key Addr (Bool × ℕ)) _ =
      some ((SignState.weigh threshold test ((m, w) :: members) total s.signState).1,
        { s with signState := (SignState.weigh threshold test ((m, w) :: members) total s.signState).2 })
    rw [SignState.weigh, ih, ih]
    cases test m s.signState with
    | mk passed s' =>
      cases passed with
      | false => rfl
      | true =>
        by_cases hreached : threshold ≤ (total + w) % 2 ^ 32
        · simp only [if_pos hreached]
          rfl
        · simp only [if_neg hreached]
          rfl

theorem approves_ofSignState {check : Option (ℕ → AddressM Key Addr Bool)}
    {check' : Option (ℕ → SignState Key → Bool × SignState Key)}
    (h : check = check'.map fun c account => ofSignState (c account)) (account : ℕ) :
    approves check account = ofSignState (SignState.approves check' account) := by
  funext s
  subst h
  change (if account ∈ s.signState.approvedBy then _ else _ : AddressM Key Addr Bool) s =
    some ((SignState.approves check' account s.signState).1,
      { s with signState := (SignState.approves check' account s.signState).2 })
  unfold SignState.approves
  by_cases hknown : account ∈ s.signState.approvedBy
  · rw [if_pos hknown, if_pos hknown]
    rfl
  · rw [if_neg hknown, if_neg hknown]
    cases check' with
    | none => rfl
    | some c =>
      change (ofSignState (c account) >>= _ : AddressM Key Addr Bool) s = _
      rw [bind_apply]
      unfold ofSignState
      dsimp only
      cases c account s.signState with
      | mk passed s' =>
        cases passed with
        | false => rfl
        | true => rfl

variable [LinearOrder Key]

theorem checkMembers_ofSignState (ask : Addr → AddressM Key Addr Bool)
    {check : Option (ℕ → AddressM Key Addr Bool)}
    (check' : Option (ℕ → SignState Key → Bool × SignState Key))
    (h : check = check'.map fun c account => ofSignState (c account)) {auth : AddressAuthority Key Addr}
    (hauth : auth.addressAuths = []) :
    checkMembers ask check auth = ofSignState (SignState.checkMembers check' auth.toAuthority) := by
  have hkeys : (signedByKey : Key → AddressM Key Addr Bool) = fun k => ofSignState (SignState.signedBy k) := rfl
  have haccounts : approves check = fun account => ofSignState (SignState.approves check' account) :=
    funext fun account => approves_ofSignState h account
  funext s
  unfold checkMembers
  simp only [hauth, hkeys, haccounts, weigh_ofSignState]
  change _ = some ((SignState.checkMembers check' auth.toAuthority s.signState).1,
    { s with signState := (SignState.checkMembers check' auth.toAuthority s.signState).2 })
  unfold SignState.checkMembers
  rw [bind_apply]
  change (ofSignState (SignState.weigh auth.weightThreshold SignState.signedBy auth.keyAuths 0) >>= _ :
    AddressM Key Addr Bool) _ = _
  rw [bind_apply]
  unfold ofSignState
  dsimp only
  cases SignState.weigh auth.weightThreshold SignState.signedBy auth.keyAuths 0
      { s.signState with visited := auth.toAuthority :: s.signState.visited } with
  | mk r s₁ =>
    obtain ⟨reached, total⟩ := r
    cases reached with
    | true => rfl
    | false => rfl

end NoAddresses

variable [DecidableEq Addr] [LinearOrder Key]

/-! ### Checks of authorities -/

section Guard

open MaybeM AddressState

/-- What a `sign_state` asks for are addresses, and those of known keys are there. -/
def addressAsking (F : AddressForms Key Addr) (sigs keys : Finset Key) : Asking (AddressState Key Addr) Addr where
  Inv := SignInv F sigs keys
  asked := AddressState.asked
  There := Known F sigs keys

variable {F : AddressForms Key Addr} {sigs keys : Finset Key}

theorem guarded_signedByAddress (a : Addr) :
    Guarded (addressAsking F sigs keys) (signedByAddress F a) (answered F a) where
  returns s hs := by
    by_cases ha : Known F sigs keys a
    · obtain ⟨k, hk, -, heq⟩ := signedByAddress_of_known hs ha
      refine ⟨true, (s.askFor F a).markUsed k, ?_, (hs.askFor a).markUsed hk, List.subset_cons_self _ _⟩
      unfold answered
      rw [heq]
      rfl
    · refine ⟨false, s.askFor F a, ?_, hs.askFor a, List.subset_cons_self _ _⟩
      unfold answered
      rw [signedByAddress_of_unknown hs ha]
      rfl
  guarded s hs hfine b s' h := by
    unfold answered at h
    by_cases ha : Known F sigs keys a
    · obtain ⟨k, hk, -, heq⟩ := signedByAddress_of_known hs ha
      rw [heq] at h
      obtain ⟨rfl, rfl⟩ := Prod.mk.inj (Option.some.inj h)
      refine ⟨fun _ => heq, fun hnot => absurd ?_ hnot⟩
      intro a' ha'
      rcases List.mem_cons.mp ha' with rfl | hold
      · exact ha
      · exact hfine a' hold
    · have heq := signedByAddress_of_unknown hs ha
      rw [heq] at h
      obtain ⟨rfl, rfl⟩ := Prod.mk.inj (Option.some.inj h)
      exact ⟨fun hfine' => absurd (hfine' a List.mem_cons_self) ha, fun _ => heq⟩

theorem guarded_signedByKey (k : Key) :
    Guarded (addressAsking F sigs keys) (signedByKey k) (signedByKey k) := by
  refine guarded_silent fun s hs => ⟨_, _, rfl, ?_, rfl⟩
  unfold SignState.signedBy
  split
  · next hsigned =>
    have hk : k ∈ sigs ∪ keys := by
      rcases hsigned with hprovided | havailable
      · exact hs.provided.2 (mem_providedKeys.mpr (AList.lookup_isSome.mp hprovided))
      · rw [hs.available] at havailable
        exact Finset.mem_union_right _ havailable
    exact hs.markUsed hk
  · exact hs

theorem guarded_visit (auth : Authority Key) :
    Guarded (addressAsking F sigs keys) (visit auth) (visit auth) :=
  guarded_silent fun _ hs => ⟨(), _, rfl, ⟨hs.available, hs.provided, hs.maps⟩, rfl⟩

theorem guarded_approve (account : ℕ) :
    Guarded (addressAsking F sigs keys) (approve account) (approve account) :=
  guarded_silent fun _ hs => ⟨(), _, rfl, ⟨hs.available, hs.provided, hs.maps⟩, rfl⟩

theorem guarded_weigh {μ : Type} (threshold : ℕ) {test test' : μ → AddressM Key Addr Bool}
    (h : ∀ m, Guarded (addressAsking F sigs keys) (test m) (test' m)) (members : List (μ × ℕ)) (total : ℕ) :
    Guarded (addressAsking F sigs keys) (weigh threshold test members total)
      (weigh threshold test' members total) := by
  induction members generalizing total with
  | nil => exact guarded_pure _
  | cons e members ih =>
    obtain ⟨m, w⟩ := e
    unfold weigh
    exact (h m).bind fun passed => .ite (.ite (guarded_pure _) (ih _)) (ih _)

theorem guarded_approves {check check' : Option (ℕ → AddressM Key Addr Bool)}
    (h : Option.Rel (fun c c' => ∀ account, Guarded (addressAsking F sigs keys) (c account) (c' account))
      check check') (account : ℕ) :
    Guarded (addressAsking F sigs keys) (approves check account) (approves check' account) := by
  unfold approves
  refine (guarded_silent fun s hs => ⟨s, s, rfl, hs, rfl⟩).bind fun s => .ite (guarded_pure _) ?_
  cases h with
  | none => exact guarded_pure _
  | some h =>
    exact (h account).bind fun passed =>
      .ite ((guarded_approve account).bind fun _ => guarded_pure _) (guarded_pure _)

theorem guarded_checkMembers {check check' : Option (ℕ → AddressM Key Addr Bool)}
    (h : Option.Rel (fun c c' => ∀ account, Guarded (addressAsking F sigs keys) (c account) (c' account))
      check check') (auth : AddressAuthority Key Addr) :
    Guarded (addressAsking F sigs keys) (checkMembers (signedByAddress F) check auth)
      (checkMembers (answered F) check' auth) := by
  unfold checkMembers
  refine (guarded_visit _).bind fun _ => (guarded_weigh _ guarded_signedByKey _ _).bind fun r => ?_
  refine .ite (guarded_pure _) ((guarded_weigh _ guarded_signedByAddress _ _).bind fun r' => ?_)
  exact .ite (guarded_pure _) ((guarded_weigh _ (guarded_approves h) _ _).bind fun _ => guarded_pure _)

/-- **`check_authority`** does what it would do with the missing answers, as long as it needs none of them, by
induction on the levels. -/
theorem guarded_checkAuthority (getActive : ℕ → Option (AddressAuthority Key Addr)) (levels : ℕ)
    (auth : Option (AddressAuthority Key Addr)) :
    Guarded (addressAsking F sigs keys) (checkAuthority (signedByAddress F) getActive levels auth)
      (checkAuthority (answered F) getActive levels auth) := by
  induction levels generalizing auth with
  | zero =>
    cases auth with
    | none => exact guarded_pure _
    | some auth => exact guarded_checkMembers .none auth
  | succ levels ih =>
    cases auth with
    | none => exact guarded_pure _
    | some auth => exact guarded_checkMembers (.some fun account => ih _) auth

end Guard

/-! ### Runs -/

open AddressState

/-- A `sign_state`, after it was constructed and used any number of times. These are the steps of
`check_authority`. -/
inductive SignRun (F : AddressForms Key Addr) (sigs : Finset Key) (approvals : Finset ℕ) (keys : Finset Key) :
    AddressState Key Addr → Prop
  | init : SignRun F sigs approvals keys
      { signState := { SignState.init sigs approvals with availableKeys := keys } }
  | key {s s' : AddressState Key Addr} {k : Key} {b : Bool} (h : SignRun F sigs approvals keys s)
      (hk : signedByKey k s = some (b, s')) : SignRun F sigs approvals keys s'
  | address {s s' : AddressState Key Addr} {a : Addr} {b : Bool} (h : SignRun F sigs approvals keys s)
      (ha : signedByAddress F a s = some (b, s')) : SignRun F sigs approvals keys s'
  | visit {s s' : AddressState Key Addr} {auth : Authority Key} {u : Unit} (h : SignRun F sigs approvals keys s)
      (hauth : visit auth s = some (u, s')) : SignRun F sigs approvals keys s'
  | approve {s s' : AddressState Key Addr} {account : ℕ} {u : Unit} (h : SignRun F sigs approvals keys s)
      (haccount : approve account s = some (u, s')) : SignRun F sigs approvals keys s'

section Runs

variable {F : AddressForms Key Addr} {sigs : Finset Key} {approvals : Finset ℕ} {keys : Finset Key}
variable {s : AddressState Key Addr} {a : Addr}

theorem signInv_init : SignInv F sigs keys
    { signState := { SignState.init sigs approvals with availableKeys := keys } } where
  available := rfl
  provided := by
    constructor
    · intro k hk
      rw [mem_providedKeys]
      exact AList.lookup_isSome.mp (SignState.isSome_lookup_init approvals hk)
    · intro k hk
      rw [mem_providedKeys] at hk
      obtain ⟨b, hb⟩ := Option.isSome_iff_exists.mp (AList.lookup_isSome.mpr hk)
      have hinit : (SignState.init sigs approvals).providedSignatures.lookup k = some b := hb
      exact Finset.mem_union_left _ (SignState.mem_of_lookup_init hinit)
  maps := .inl rfl

/-- **What holds in a run**: the invariant, and nobody has asked for an address that is not known. -/
theorem SignRun.inv (h : SignRun F sigs approvals keys s) :
    SignInv F sigs keys s ∧ ∀ a ∈ s.asked, Known F sigs keys a := by
  induction h with
  | init => exact ⟨signInv_init, nofun⟩
  | @key s s' k b _ hk ih =>
    obtain ⟨b', s₁, heq, hinv, -⟩ := (guarded_signedByKey k).returns s ih.1
    rw [hk] at heq
    obtain ⟨-, rfl⟩ := Prod.mk.inj (Option.some.inj heq)
    obtain ⟨-, rfl⟩ := Prod.mk.inj (Option.some.inj hk)
    exact ⟨hinv, ih.2⟩
  | @address s s' a b _ ha ih =>
    by_cases hknown : Known F sigs keys a
    · obtain ⟨k, hk, -, heq⟩ := signedByAddress_of_known ih.1 hknown
      rw [heq] at ha
      obtain ⟨-, rfl⟩ := Prod.mk.inj (Option.some.inj ha)
      refine ⟨(ih.1.askFor a).markUsed hk, fun a' ha' => ?_⟩
      rcases List.mem_cons.mp ha' with rfl | hold
      · exact hknown
      · exact ih.2 a' hold
    · rw [signedByAddress_of_unknown ih.1 hknown] at ha
      cases ha
  | visit _ hauth ih =>
    obtain ⟨-, rfl⟩ := Prod.mk.inj (Option.some.inj hauth)
    exact ⟨⟨ih.1.available, ih.1.provided, ih.1.maps⟩, ih.2⟩
  | approve _ haccount ih =>
    obtain ⟨-, rfl⟩ := Prod.mk.inj (Option.some.inj haccount)
    exact ⟨⟨ih.1.available, ih.1.provided, ih.1.maps⟩, ih.2⟩

/-- `signed_by` of an address is as it should be: it returns without reading what is not there, its answer is
yes just for the addresses of the provided and the available keys, and it marks a key with that address, and no
other one. -/
def AddressChecked (F : AddressForms Key Addr) (sigs keys : Finset Key) (a : Addr)
    (s : AddressState Key Addr) : Prop :=
  ∃ b s', signedByAddress F a s = some (b, s') ∧ (b = true ↔ Known F sigs keys a) ∧
    (b = true → ∃ k, a ∈ F.forms k ∧ s'.signState.providedSignatures.lookup k = some true) ∧
    ∀ k, s'.signState.providedSignatures.lookup k ≠ s.signState.providedSignatures.lookup k → a ∈ F.forms k

theorem addressChecked_iff (h : SignInv F sigs keys s) :
    AddressChecked F sigs keys a s ↔ Known F sigs keys a := by
  constructor
  · rintro ⟨b, s', heq, -⟩
    by_contra hunknown
    rw [signedByAddress_of_unknown h hunknown] at heq
    cases heq
  · intro hknown
    obtain ⟨k, -, hform, heq⟩ := signedByAddress_of_known h hknown
    refine ⟨true, _, heq, iff_of_true rfl hknown, fun _ => ⟨k, hform, AList.lookup_insert _⟩, ?_⟩
    intro k' hchanged
    by_contra hother
    have hne : k' ≠ k := fun hsame => hother (hsame ▸ hform)
    apply hchanged
    change ((s.askFor F a).signState.providedSignatures.insert k true).lookup k' = _
    rw [AList.lookup_insert_ne hne, signState_askFor]

/-- The missing answers are right. -/
theorem answered_eq (h : SignInv F sigs keys s) :
    ∃ s', answered F a s = some (decide (Known F sigs keys a), s') := by
  unfold answered
  by_cases hknown : Known F sigs keys a
  · obtain ⟨k, -, -, heq⟩ := signedByAddress_of_known h hknown
    rw [heq, decide_eq_true hknown]
    exact ⟨_, rfl⟩
  · rw [signedByAddress_of_unknown h hknown, decide_eq_false hknown]
    exact ⟨_, rfl⟩

/-- `check_authority` is as it should be: it counts the weights of addresses that are known, and passes over
the others. -/
def AuthorityChecked (F : AddressForms Key Addr) (getActive : ℕ → Option (AddressAuthority Key Addr))
    (levels : ℕ) (auth : Option (AddressAuthority Key Addr)) (s : AddressState Key Addr) : Prop :=
  checkAuthority (signedByAddress F) getActive levels auth s =
    checkAuthority (answered F) getActive levels auth s

/-- **Exactly when addresses are checked safely**, in every state of a `sign_state`. `signed_by` is as it should
be for the addresses of provided and available keys, and for no other. `check_authority` is, if and only if all
addresses it asks for on its way are of that kind. -/
theorem address_checks_iff (hrun : SignRun F sigs approvals keys s) :
    (∀ a, AddressChecked F sigs keys a s ↔ Known F sigs keys a) ∧
      (∀ a, ∃ s', answered F a s = some (decide (Known F sigs keys a), s')) ∧
      ∀ getActive levels auth, AuthorityChecked F getActive levels auth s ↔
        ∀ b s', checkAuthority (answered F) getActive levels auth s = some (b, s') →
          ∀ a ∈ s'.asked, Known F sigs keys a := by
  obtain ⟨hinv, hasked⟩ := hrun.inv
  refine ⟨fun a => addressChecked_iff hinv, fun a => answered_eq hinv, fun getActive levels auth => ?_⟩
  exact (guarded_checkAuthority getActive levels auth).eq_iff hinv hasked

end Runs

/-- Addresses that show what they were made of. -/
private def openForms : AddressForms ℕ (ℕ × Bool × ℕ) where
  ptsAddress k compressed version := (k, compressed, version)
  address k := (k, true, 1)

/-- One key has signed, and another one is available. -/
private def oneSigned : AddressState ℕ (ℕ × Bool × ℕ) :=
  { signState := { SignState.init {1} ∅ with availableKeys := {2} } }

/-- An authority of one address, that of the third key. -/
private def thirdKey : AddressAuthority ℕ (ℕ × Bool × ℕ) where
  weightThreshold := 1
  accountAuths := []
  keyAuths := []
  accounts_nodup := List.nodup_nil
  keys_nodup := List.nodup_nil
  addressAuths := [((3, true, 56), 1)]
  addresses_nodup := List.nodup_singleton _

theorem address_checks_oneSigned : AddressChecked openForms {1} {2} (2, true, 56) oneSigned :=
  ((address_checks_iff (.init : SignRun openForms {1} ∅ {2} oneSigned)).1 _).mpr (by decide)

/-- Nobody has signed for the address of the third key. -/
theorem not_address_checks : SignRun openForms {1} ∅ {2} oneSigned ∧
    ¬ AddressChecked openForms {1} {2} (3, true, 56) oneSigned ∧
    ¬ AuthorityChecked openForms (fun _ => none) 2 (some thirdKey) oneSigned := by
  have hrun : SignRun openForms {1} ∅ {2} oneSigned := .init
  have hunknown : ¬ Known openForms {1} {2} (3, true, 56) := by decide
  refine ⟨hrun, fun h => hunknown ((addressChecked_iff hrun.inv.1).mp h), fun h => ?_⟩
  have hundefined : (checkAuthority (signedByAddress openForms) (fun _ => none) 2 (some thirdKey)
      oneSigned).isSome = false := by decide +kernel
  have hanswered : (checkAuthority (answered openForms) (fun _ => none) 2 (some thirdKey)
      oneSigned).isSome = true := by decide +kernel
  unfold AuthorityChecked at h
  rw [h, hanswered] at hundefined
  cases hundefined

end FinChain.Protocol
