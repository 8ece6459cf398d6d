import FinChain.Protocol.AuthoritySeen

/-!
# Order and extra signatures

Whether the signatures of a transaction are enough should not depend on the order of its operations, and
one more signature should not make them less. The search remembers the accounts it has found, and it
stops as soon as a threshold is reached. So with the depth limited both can go wrong, in the same way: an
account deep below one requirement counts only because an earlier requirement has had it looked at; in
another order, or when another key has met that requirement before the account was reached, it does not
(`not_verifyAuthority_stable`).

`verifyAuthority_stable` says that this takes a requirement that can be met, but not within the depth
limit. If all requirements that can be met at all are met within it, then the search finds them in any
order, and with any further signatures. And if no account is ever looked into, nothing is remembered.
-/

namespace FinChain.Protocol

open Exec SignState

variable {Key : Type}

/-- The approvals a transaction comes with. -/
def Accounts.approvals (A : Accounts Key) : Finset ℕ := A.activeApprovals ∪ A.ownerApprovals

/-- The weights of every authority of an account can be added up. -/
structure Accounts.Fits (A : Accounts Key) : Prop where
  active : ∀ id auth, A.getActive id = some auth → auth.Fits
  owner : ∀ id auth, A.getOwner id = some auth → auth.Fits

/-- An authority that is met within the levels. -/
def Accounts.Meets (A : Accounts Key) (keys : Finset Key) (levels : ℕ) (auth : Authority Key) : Prop :=
  MetBy keys (KnownWithin A.getActive keys (Given A.approvals) levels) auth

/-- Every requirement is met, for a notion of authorities that are met. -/
structure Required.MetFor (A : Accounts Key) (met : Authority Key → Prop) (r : Required Key) : Prop where
  other : ∀ auth ∈ r.other, met auth
  active : ∀ id ∈ r.active, (Given A.approvals id ∨ ∃ auth, A.getActive id = some auth ∧ met auth) ∨
    ∃ auth, A.getOwner id = some auth ∧ met auth
  owner : ∀ id ∈ r.owner, id ∈ A.ownerApprovals ∨ ∃ auth, A.getOwner id = some auth ∧ met auth

/-- The two have the same requirements, in whatever order. -/
structure Required.Same (r r' : Required Key) : Prop where
  active : r.active = r'.active
  owner : r.owner = r'.owner
  other : ∀ auth, auth ∈ r.other ↔ auth ∈ r'.other

section Required

variable {A : Accounts Key} {keys keys' : Finset Key} {levels : ℕ} {r r' : Required Key}

theorem Accounts.Meets.mono_keys (hkeys : keys ⊆ keys') {auth : Authority Key}
    (h : A.Meets keys levels auth) : A.Meets keys' levels auth :=
  MetBy.mono h hkeys fun _ => KnownWithin.mono_keys hkeys

theorem Required.MetFor.mono {met met' : Authority Key → Prop} (h : r.MetFor A met)
    (hmet : ∀ auth, met auth → met' auth) : r.MetFor A met' where
  other auth hauth := hmet auth (h.other auth hauth)
  active id hid := by
    rcases h.active id hid with (hgiven | ⟨auth, hauth, hmet'⟩) | ⟨auth, hauth, hmet'⟩
    · exact .inl (.inl hgiven)
    · exact .inl (.inr ⟨auth, hauth, hmet auth hmet'⟩)
    · exact .inr ⟨auth, hauth, hmet auth hmet'⟩
  owner id hid := (h.owner id hid).imp_right fun ⟨auth, hauth, hmet'⟩ => ⟨auth, hauth, hmet auth hmet'⟩

theorem Required.Same.symm (h : r.Same r') : r'.Same r :=
  ⟨h.active.symm, h.owner.symm, fun auth => (h.other auth).symm⟩

theorem Required.Same.metFor (h : r.Same r') {met : Authority Key → Prop} (hmet : r.MetFor A met) :
    r'.MetFor A met where
  other auth hauth := hmet.other auth ((h.other auth).mpr hauth)
  active id hid := hmet.active id (h.active ▸ hid)
  owner id hid := hmet.owner id (h.owner ▸ hid)

theorem Required.Same.roots {r r' : Required Key} (h : r.Same r') : r.Roots A = r'.Roots A := by
  funext auth
  unfold Required.Roots
  rw [h.active, h.owner, h.other auth]

theorem Required.Same.refl (r : Required Key) : r.Same r := ⟨rfl, rfl, fun _ => Iff.rfl⟩

theorem Required.Same.trans {r'' : Required Key} (h : r.Same r') (h' : r'.Same r'') : r.Same r'' :=
  ⟨h.active.trans h'.active, h.owner.trans h'.owner, fun auth => (h.other auth).trans (h'.other auth)⟩

theorem Required.Same.add (h : r.Same r') (more : Required Key) : (r.add more).Same (r'.add more) := by
  refine ⟨?_, ?_, fun auth => ?_⟩
  · change r.active ∪ more.active = r'.active ∪ more.active
    rw [h.active]
  · change r.owner ∪ more.owner = r'.owner ∪ more.owner
    rw [h.owner]
  · change auth ∈ r.other ++ more.other ↔ auth ∈ r'.other ++ more.other
    rw [List.mem_append, List.mem_append, h.other auth]

/-- Two operations may change places. -/
theorem Required.same_add_add (r a b : Required Key) : ((r.add a).add b).Same ((r.add b).add a) := by
  refine ⟨Finset.union_right_comm _ _ _, Finset.union_right_comm _ _ _, fun auth => ?_⟩
  change auth ∈ (r.other ++ a.other) ++ b.other ↔ auth ∈ (r.other ++ b.other) ++ a.other
  simp only [List.mem_append]
  tauto

/-- Operations in another order require the same. -/
theorem same_requiredBy {Op : Type} (requiredAuthorities : Op → Required Key) {ops ops' : List Op}
    (h : ops.Perm ops') : (requiredBy requiredAuthorities ops).Same
      (requiredBy requiredAuthorities ops') := by
  have hcongr : ∀ (ops : List Op) {r r' : Required Key}, r.Same r' →
      (ops.foldl (fun r op => r.add (requiredAuthorities op)) r).Same
        (ops.foldl (fun r op => r.add (requiredAuthorities op)) r') := by
    intro ops
    induction ops with
    | nil => exact fun hr => hr
    | cons op ops ih => exact fun hr => ih (hr.add (requiredAuthorities op))
  have hperm : ∀ r : Required Key, (ops.foldl (fun r op => r.add (requiredAuthorities op)) r).Same
      (ops'.foldl (fun r op => r.add (requiredAuthorities op)) r) := by
    induction h with
    | nil => exact fun r => .refl r
    | cons op _ ih => exact fun r => ih (r.add (requiredAuthorities op))
    | swap a b ops =>
      exact fun r => hcongr ops (r.same_add_add (requiredAuthorities b) (requiredAuthorities a))
    | trans _ _ ih ih' => exact fun r => (ih r).trans (ih' r)
  exact hperm {}

end Required

/-! ### What is found -/

variable [LinearOrder Key]

namespace SignState

variable {A : Accounts Key} {keys : Finset Key} {base : ℕ → Prop} {levels : ℕ}

/-- The constructor makes a state that is ready for the signatures and the approvals. -/
theorem ready_init (sigs : Finset Key) (approvals : Finset ℕ) :
    Ready sigs (Given approvals) (init sigs approvals) where
  approvedBy _ h := h
  provided _ hk := .inl (isSome_lookup_init approvals hk)

theorem complete_orElse {p q : Prop} {a b : SignState Key → Bool × SignState Key}
    (ha : Complete keys base p a) (hb : Complete keys base q b) :
    Complete keys base (p ∨ q) (orElse a b) := by
  intro s hs
  have hfirst := ha s hs
  unfold orElse
  cases hrun : a s with
  | mk found s' =>
    rw [hrun] at hfirst
    cases found with
    | true => exact ⟨hfirst.1, fun _ => rfl⟩
    | false =>
      have hsecond := hb s' hfirst.1
      refine ⟨hsecond.1, ?_⟩
      rintro (hp | hq)
      · cases hfirst.2 hp
      · exact hsecond.2 hq

theorem complete_checkAccount (hA : A.Fits) (id : ℕ) :
    Complete keys (Given A.approvals)
      (Given A.approvals id ∨ ∃ auth, A.getActive id = some auth ∧ A.Meets keys levels auth)
      (checkAccount A.getActive levels id) := by
  intro s hs
  unfold checkAccount
  split
  · exact ⟨hs, fun _ => rfl⟩
  · next hnot =>
    have hcheck := complete_checkAuthority hA.active levels (hA.active id) s hs
    exact ⟨hcheck.1, fun h => hcheck.2 (h.resolve_left fun hgiven =>
      hnot (hs.approvedBy id hgiven))⟩

theorem ok_of_complete {p : Prop} {check : SignState Key → Bool × SignState Key}
    (hcheck : Complete keys base p check) (hp : p) (e : AuthorityError) {s : SignState Key}
    (hs : Ready keys base s) : ∃ s', demand e check s = .ok () s' ∧ Ready keys base s' := by
  have h := hcheck s hs
  refine ⟨(check s).2, demand_eq_ok.mpr ?_, h.1⟩
  rw [← h.2 hp]

theorem forM_ok {γ : Type} {f : γ → SignM Key Unit} : ∀ {l : List γ},
    (∀ c ∈ l, ∀ s, Ready keys base s → ∃ s', f c s = .ok () s' ∧ Ready keys base s') →
    ∀ s, Ready keys base s → ∃ s', l.forM f s = .ok ⟨⟩ s' ∧ Ready keys base s'
  | [], _, s, hs => ⟨s, rfl, hs⟩
  | c :: l, hf, s, hs => by
    obtain ⟨s₁, hc, hs₁⟩ := hf c List.mem_cons_self s hs
    obtain ⟨s', hl, hs'⟩ := forM_ok (fun c' hc' => hf c' (List.mem_cons_of_mem c hc')) s₁ hs₁
    refine ⟨s', ?_, hs'⟩
    change (f c >>= fun _ => l.forM f) s = _
    rw [bind_apply, hc]
    exact hl

/-- **Requirements that are met within the levels are found.** -/
theorem checkRequired_complete (hA : A.Fits) {r : Required Key} (hother : ∀ auth ∈ r.other, auth.Fits)
    (hmet : r.MetFor A (A.Meets keys levels)) {s : SignState Key} (hs : Ready keys (Given A.approvals) s) :
    ∃ s', checkRequired A levels r s = .ok ⟨⟩ s' := by
  obtain ⟨s₁, hother', hs₁⟩ := forM_ok (f := fun auth => demand .txMissingOtherAuth
    (checkAuthority A.getActive levels (some auth))) (l := r.other) (fun auth hauth s hs => by
      refine ok_of_complete (complete_checkAuthority hA.active levels fun auth' hauth' => ?_)
        ⟨auth, rfl, hmet.other auth hauth⟩ _ hs
      exact hother auth' (Option.some.inj hauth' ▸ hauth)) s hs
  obtain ⟨s₂, hactive, hs₂⟩ := forM_ok (f := fun id => demand (.txMissingActiveAuth id)
    (orElse (checkAccount A.getActive levels id) (checkAuthority A.getActive levels (A.getOwner id))))
      (l := r.active.sort (· ≤ ·)) (fun id hid s hs =>
        ok_of_complete (complete_orElse (complete_checkAccount hA id)
          (complete_checkAuthority hA.active levels (hA.owner id)))
          (hmet.active id ((Finset.mem_sort _).mp hid)) _ hs) s₁ hs₁
  obtain ⟨s₃, howner, -⟩ := forM_ok (f := fun id => if id ∈ A.ownerApprovals then pure ()
    else demand (.txMissingOwnerAuth id) (checkAuthority A.getActive levels (A.getOwner id)))
      (l := r.owner.sort (· ≤ ·)) (fun id hid s hs => by
        by_cases happroved : id ∈ A.ownerApprovals
        · rw [if_pos happroved]
          exact ⟨s, rfl, hs⟩
        · rw [if_neg happroved]
          exact ok_of_complete (complete_checkAuthority hA.active levels (hA.owner id))
            ((hmet.owner id ((Finset.mem_sort _).mp hid)).resolve_left happroved) _ hs) s₂ hs₂
  refine ⟨s₃, ?_⟩
  exact bind_eq_ok.mpr ⟨⟨⟩, s₁, hother', bind_eq_ok.mpr ⟨⟨⟩, s₂, hactive, howner⟩⟩

omit [LinearOrder Key] in
/-- A loop of checks is passed only if each of them is. -/
theorem forM_sound {γ : Type} {J : SignState Key → Prop} {P : γ → Prop} {f : γ → SignM Key Unit} :
    ∀ {l : List γ}, (∀ c ∈ l, ∀ s s', J s → f c s = .ok () s' → J s' ∧ P c) →
      ∀ s s', J s → l.forM f s = .ok ⟨⟩ s' → J s' ∧ ∀ c ∈ l, P c
  | [], _, s, s', hs, h => by
    obtain ⟨-, rfl⟩ := pure_eq_ok.mp h
    exact ⟨hs, fun c hc => by cases hc⟩
  | c :: l, hf, s, s', hs, h => by
    change (f c >>= fun _ => l.forM f) s = _ at h
    obtain ⟨_, s₁, hc, h⟩ := bind_eq_ok.mp h
    obtain ⟨hs₁, hP⟩ := hf c List.mem_cons_self s s₁ hs hc
    obtain ⟨hs', hPs⟩ := forM_sound (fun c' hc' => hf c' (List.mem_cons_of_mem c hc')) s₁ s' hs₁ h
    refine ⟨hs', fun c' hc' => ?_⟩
    rcases List.mem_cons.mp hc' with rfl | hc'
    · exact hP
    · exact hPs c' hc'

/-- The active authorities that the check of some requirements looks at. -/
noncomputable abbrev seenBy (A : Accounts Key) (r : Required Key) (levels : ℕ) :
    ℕ → Option (Authority Key) :=
  seenActive A.getActive (r.Roots A) levels

/-- The check of some requirements remembers what is derived from what it looks at. -/
abbrev SeenJustified (A : Accounts Key) (keys : Finset Key) (r : Required Key) (levels : ℕ) :
    SignState Key → Prop :=
  Justified (seenBy A r levels) keys A.approvals fun _ => True

variable {r : Required Key}

theorem sound_root {o : Option (Authority Key)} (hroots : ∀ auth, o = some auth → r.Roots A auth)
    {s : SignState Key} (hs : SeenJustified A keys r levels s) :
    SeenJustified A keys r levels (checkAuthority A.getActive levels o s).2 ∧
      ((checkAuthority A.getActive levels o s).1 = true →
        ∃ auth, o = some auth ∧ Derived (seenBy A r levels) keys A.approvals auth) :=
  derivedSeen_of_checkAuthority (fun auth hauth => .root (hroots auth hauth)) hs

theorem sound_checkAccount {id : ℕ} (hid : id ∈ r.active) {s : SignState Key}
    (hs : SeenJustified A keys r levels s) :
    SeenJustified A keys r levels (checkAccount A.getActive levels id s).2 ∧
      ((checkAccount A.getActive levels id s).1 = true → Given A.approvals id ∨
        ∃ auth, A.getActive id = some auth ∧ Derived (seenBy A r levels) keys A.approvals auth) := by
  unfold checkAccount
  split
  · next hknown =>
    refine ⟨hs, fun _ => ?_⟩
    cases hs.approvedBy id hknown with
    | temp => exact .inl (Finset.mem_insert_self _ _)
    | approved h => exact .inl (Finset.mem_insert_of_mem h)
    | active hseen h => exact .inr ⟨_, active_of_seenActive hseen, h⟩
  · obtain ⟨hs', hfound⟩ := sound_root (fun a ha => .inr (.inl ⟨id, hid, .inl ha⟩)) hs
    exact ⟨hs', fun h => .inr (hfound h)⟩

/-- **Requirements that are found** are met by the accounts that are looked into. -/
theorem checkRequired_sound {s s' : SignState Key} (hs : SeenJustified A keys r levels s)
    (h : checkRequired A levels r s = .ok ⟨⟩ s') :
    r.MetFor A (Derived (seenBy A r levels) keys A.approvals) := by
  unfold checkRequired at h
  obtain ⟨_, s₁, hother, h⟩ := bind_eq_ok.mp h
  obtain ⟨_, s₂, hactive, howner⟩ := bind_eq_ok.mp h
  obtain ⟨hs₁, hmet⟩ := forM_sound (J := SeenJustified A keys r levels)
    (P := fun auth => Derived (seenBy A r levels) keys A.approvals auth) (fun auth hauth s s' hs h => by
      have hfound := sound_root (o := some auth) (fun a ha => .inl (Option.some.inj ha ▸ hauth)) hs
      rw [demand_eq_ok.mp h] at hfound
      obtain ⟨a, ha, hderived⟩ := hfound.2 rfl
      obtain rfl := Option.some.inj ha
      exact ⟨hfound.1, hderived⟩) s s₁ hs hother
  obtain ⟨hs₂, hmet'⟩ := forM_sound (J := SeenJustified A keys r levels)
    (P := fun id => (Given A.approvals id ∨ ∃ auth, A.getActive id = some auth ∧
      Derived (seenBy A r levels) keys A.approvals auth) ∨
        ∃ auth, A.getOwner id = some auth ∧ Derived (seenBy A r levels) keys A.approvals auth)
    (fun id hid s s' hs h => by
      have hid' := (Finset.mem_sort _).mp hid
      rw [demand_eq_ok, orElse] at h
      have haccount := sound_checkAccount hid' hs
      cases hrun : checkAccount A.getActive levels id s with
      | mk found s₁ =>
        rw [hrun] at h haccount
        cases found with
        | true =>
          cases h
          exact ⟨haccount.1, .inl (haccount.2 rfl)⟩
        | false =>
          have howner := sound_root (o := A.getOwner id) (fun a ha => .inr (.inl ⟨id, hid', .inr ha⟩))
            haccount.1
          dsimp only at h howner
          rw [h] at howner
          exact ⟨howner.1, .inr (howner.2 rfl)⟩) s₁ s₂ hs₁ hactive
  obtain ⟨-, hmet''⟩ := forM_sound (J := SeenJustified A keys r levels)
    (P := fun id => id ∈ A.ownerApprovals ∨
      ∃ auth, A.getOwner id = some auth ∧ Derived (seenBy A r levels) keys A.approvals auth)
    (fun id hid s s' hs h => by
      split at h
      · next happroved =>
        obtain ⟨-, rfl⟩ := pure_eq_ok.mp h
        exact ⟨hs, .inl happroved⟩
      · have howner := sound_root (o := A.getOwner id)
          (fun a ha => .inr (.inr ⟨id, (Finset.mem_sort _).mp hid, ha⟩)) hs
        rw [demand_eq_ok.mp h] at howner
        exact ⟨howner.1, .inr (howner.2 rfl)⟩) s₂ s' hs₂ howner
  exact ⟨hmet, fun id hid => hmet' id ((Finset.mem_sort _).mpr hid),
    fun id hid => hmet'' id ((Finset.mem_sort _).mpr hid)⟩

end SignState

/-! ### The outcome -/

/-- The exceptions for a requirement that was not found. -/
def AuthorityError.isMissing : AuthorityError → Bool
  | .txMissingOtherAuth => true
  | .txMissingActiveAuth _ => true
  | .txMissingOwnerAuth _ => true
  | .invalidCommitteeApproval => false
  | .txIrrelevantSig => false

/-- No requirement was missing. -/
def FindsAll (result : Except AuthorityError (SignState Key)) : Prop :=
  ∀ e, result = .error e → e.isMissing = false

instance (result : Except AuthorityError (SignState Key)) : Decidable (FindsAll result) :=
  match result with
  | .ok _ => isTrue fun _ h => by cases h
  | .error e => decidable_of_iff (e.isMissing = false)
      ⟨fun he _ h => by cases h; exact he, fun h => h e rfl⟩

section Outcome

variable {Op : Type} {requiredAuthorities : Op → Required Key} {A : Accounts Key} {levels : ℕ}
  {allowCommittee : Bool} {ops ops' : List Op} {sigs sigs' : Finset Key}

omit [LinearOrder Key] in
theorem raises_demand {e : AuthorityError} (he : e.isMissing = true)
    (check : SignState Key → Bool × SignState Key) :
    Raises (fun e => e.isMissing = true) (demand e check) := by
  intro s e' s' h
  unfold demand at h
  split at h
  · cases h
  · cases h
    exact he

theorem raises_checkRequired (r : Required Key) :
    Raises (fun e => e.isMissing = true) (checkRequired A levels r) := by
  unfold checkRequired
  refine raises_bind (raises_forM (fun _ => raises_demand rfl _) _) fun _ => ?_
  refine raises_bind (raises_forM (fun _ => raises_demand rfl _) _) fun _ => ?_
  refine raises_forM (fun id => ?_) _
  split
  · exact raises_pure ()
  · exact raises_demand rfl _

/-- The three loops decide whether a requirement is missing, if they are reached. -/
theorem findsAll_iff :
    FindsAll (verifyAuthority requiredAuthorities A levels allowCommittee ops sigs) ↔
      (allowCommittee = false ∧ committeeAccount ∈ (requiredBy requiredAuthorities ops).active) ∨
        ∃ s', checkRequired A levels (requiredBy requiredAuthorities ops) (init sigs A.approvals) =
          .ok ⟨⟩ s' := by
  unfold FindsAll verifyAuthority Accounts.approvals requiredBy
  dsimp only
  generalize List.foldl (fun (r : Required Key) op => r.add (requiredAuthorities op)) {} ops = r
  split
  · next hcommittee =>
    refine ⟨fun _ => .inl hcommittee, fun _ e h => ?_⟩
    cases h
    rfl
  · next hcommittee =>
    rw [or_iff_right hcommittee]
    cases hcheck : checkRequired A levels r (init sigs (A.activeApprovals ∪ A.ownerApprovals)) with
    | error e s₁ =>
      constructor
      · intro h
        have hmissing : e.isMissing = true := raises_checkRequired _ _ e s₁ hcheck
        rw [h e rfl] at hmissing
        cases hmissing
      · rintro ⟨s', h⟩
        cases h
    | ok _ s₁ =>
      refine ⟨fun _ => ⟨s₁, rfl⟩, fun _ e h => ?_⟩
      dsimp only at h
      split at h
      · cases h
        rfl
      · cases h

/-- Requirements that the accounts looked into meet are met within the levels, too. -/
def Required.NotTooDeep (A : Accounts Key) (levels : ℕ) (sigs : Finset Key) (r : Required Key) : Prop :=
  r.MetFor A (Derived (seenBy A r levels) sigs A.approvals) → r.MetFor A (A.Meets sigs levels)

/-- All authorities a transaction is checked against have weights that can be added up. -/
structure Required.Fits (A : Accounts Key) (r : Required Key) : Prop where
  accounts : A.Fits
  other : ∀ auth ∈ r.other, auth.Fits

theorem found_of_metFor {r : Required Key} (hfits : r.Fits A) (hmet : r.MetFor A (A.Meets sigs levels)) :
    ∃ s', checkRequired A levels r (init sigs A.approvals) = .ok ⟨⟩ s' :=
  checkRequired_complete hfits.accounts hfits.other hmet (ready_init sigs A.approvals)

theorem metFor_of_found {r : Required Key} (hdeep : r.NotTooDeep A levels sigs) {s' : SignState Key}
    (h : checkRequired A levels r (init sigs A.approvals) = .ok ⟨⟩ s') :
    r.MetFor A (A.Meets sigs levels) :=
  hdeep (checkRequired_sound (justified_init sigs A.approvals) h)

/-- **Order and extra signatures.** If no requirement can be met that is too deep, then whether
`verify_authority` finds every requirement depends neither on the order of the operations nor, once it
does, on further signatures. -/
theorem verifyAuthority_stable (hfits : (requiredBy requiredAuthorities ops).Fits A)
    (hdeep : (requiredBy requiredAuthorities ops).NotTooDeep A levels sigs) :
    (∀ ops', ops.Perm ops' →
      (FindsAll (verifyAuthority requiredAuthorities A levels allowCommittee ops sigs) ↔
        FindsAll (verifyAuthority requiredAuthorities A levels allowCommittee ops' sigs))) ∧
      ∀ sigs', sigs ⊆ sigs' →
        FindsAll (verifyAuthority requiredAuthorities A levels allowCommittee ops sigs) →
          FindsAll (verifyAuthority requiredAuthorities A levels allowCommittee ops sigs') := by
  constructor
  · intro ops' hperm
    have hsame := same_requiredBy requiredAuthorities hperm
    rw [findsAll_iff, findsAll_iff, ← hsame.active]
    refine or_congr_right ⟨?_, ?_⟩
    · rintro ⟨s', h⟩
      have hmet := hsame.metFor (metFor_of_found hdeep h)
      have hfits' : (requiredBy requiredAuthorities ops').Fits A :=
        ⟨hfits.accounts, fun auth hauth => hfits.other auth ((hsame.other auth).mpr hauth)⟩
      exact found_of_metFor hfits' hmet
    · rintro ⟨s', h⟩
      have hmet := hsame.symm.metFor (checkRequired_sound (justified_init sigs A.approvals) h)
      rw [seenBy, ← hsame.roots] at hmet
      exact found_of_metFor hfits (hdeep hmet)
  · intro sigs' hsub
    rw [findsAll_iff, findsAll_iff]
    refine Or.imp_right ?_
    rintro ⟨s', h⟩
    have hmet := metFor_of_found hdeep h
    exact found_of_metFor hfits (hmet.mono fun _ => Accounts.Meets.mono_keys hsub)

omit [LinearOrder Key] in
/-- With a depth limit of zero no account is looked into, and nothing is too deep. -/
theorem notTooDeep_zero (r : Required Key) : r.NotTooDeep A 0 sigs := by
  intro h
  refine h.mono fun auth hderived => ?_
  refine MetBy.mono (derived_iff_metBy.mp hderived) (Finset.Subset.refl _) fun account hvouched => ?_
  cases hvouched with
  | temp => exact Finset.mem_insert_self _ _
  | approved happroved => exact Finset.mem_insert_of_mem happroved
  | active hactive _ =>
    rw [seenBy, seenActive_zero] at hactive
    cases hactive

section Example

/-- An account with a single other account. -/
private def singleAccount (account : ℕ) : Authority ℕ where
  weightThreshold := 1
  accountAuths := [(account, 1)]
  keyAuths := []
  accounts_nodup := Authority.nodup_single _
  keys_nodup := List.nodup_nil

/-- A key or an account. -/
private def keyOrAccount (key account : ℕ) : Authority ℕ where
  weightThreshold := 1
  accountAuths := [(account, 1)]
  keyAuths := [(key, 1)]
  accounts_nodup := Authority.nodup_single _
  keys_nodup := Authority.nodup_single _

/-- Three accounts, each in the hands of the next, and the last one with a key. -/
private def chain : Accounts ℕ where
  getActive
    | 10 => some (singleAccount 11)
    | 11 => some (singleAccount 12)
    | 12 => some
        { weightThreshold := 1
          accountAuths := []
          keyAuths := [(1, 1)]
          accounts_nodup := List.nodup_nil
          keys_nodup := List.nodup_singleton _ }
    | _ => none
  getOwner _ := none
  activeApprovals := ∅
  ownerApprovals := ∅

private theorem chain_fits : chain.Fits where
  active id auth h := by
    unfold chain at h
    dsimp only at h
    split at h
    · cases h; decide
    · cases h; decide
    · cases h; decide
    · cases h
  owner _ _ h := by cases h

private theorem chain_knows_twelve : KnownWithin chain.getActive {1} (Given chain.approvals) 1 12 := by
  refine .inr ⟨_, rfl, [(1, 1)], [], List.Sublist.refl _, List.Sublist.refl _, ?_, ?_, le_rfl⟩
  · simp
  · simp

private theorem chain_knows_eleven : KnownWithin chain.getActive {1} (Given chain.approvals) 2 11 := by
  refine .inr ⟨_, rfl, [], [(12, 1)], List.Sublist.refl _, List.Sublist.refl _, ?_, ?_, le_rfl⟩
  · simp
  · intro m hm
    obtain rfl := List.mem_singleton.mp hm
    exact chain_knows_twelve

private theorem chain_meets {account : ℕ}
    (h : KnownWithin chain.getActive {1} (Given chain.approvals) 2 account) :
    chain.Meets {1} 2 (singleAccount account) := by
  refine ⟨[], [(account, 1)], List.Sublist.refl _, List.Sublist.refl _, ?_, ?_, le_rfl⟩
  · simp
  · intro m hm
    obtain rfl := List.mem_singleton.mp hm
    exact h

/-- Operations that require a single authority. -/
private def requires (auth : Authority ℕ) : Required ℕ := { other := [auth] }

/-- Two accounts of the chain, in the other order and with another signature. -/
theorem verifyAuthority_stable_chain :
    FindsAll (verifyAuthority requires chain 2 false [singleAccount 12, singleAccount 11] {1}) ∧
      FindsAll (verifyAuthority requires chain 2 false [singleAccount 11, singleAccount 12] {1, 2}) := by
  have hfound : FindsAll
      (verifyAuthority requires chain 2 false [singleAccount 11, singleAccount 12] {1}) := by
    simp only [verifyAuthority, checkRequired, init, requires, Required.add, List.foldl_cons,
      List.foldl_nil, Finset.empty_union, Finset.sort_singleton, Finset.sort_empty]
    decide +kernel
  have hfits : ∀ auth ∈ [singleAccount 11, singleAccount 12], auth.Fits := by
    intro auth hauth
    rcases List.mem_cons.mp hauth with rfl | hauth
    · decide
    · obtain rfl := List.mem_singleton.mp hauth
      decide
  have hmet : ∀ auth ∈ [singleAccount 11, singleAccount 12], chain.Meets {1} 2 auth := by
    intro auth hauth
    rcases List.mem_cons.mp hauth with rfl | hauth
    · exact chain_meets chain_knows_eleven
    · obtain rfl := List.mem_singleton.mp hauth
      exact chain_meets chain_knows_twelve.succ
  obtain ⟨horder, hmore⟩ := @verifyAuthority_stable ℕ _ (Authority ℕ) requires chain 2 false
    [singleAccount 11, singleAccount 12] {1} ⟨chain_fits, hfits⟩ fun _ =>
      { other := hmet
        active := fun id hid => by simp [requiredBy, requires, Required.add] at hid
        owner := fun id hid => by simp [requiredBy, requires, Required.add] at hid }
  exact ⟨(horder _ (List.Perm.swap _ _ _)).mp hfound, hmore {1, 2} (by decide) hfound⟩

/-- The last account counts for the first one only if it has been looked at before: in the other order
it has not, and with a second key, that makes looking at it unnecessary, it has not either. -/
theorem not_verifyAuthority_stable :
    (FindsAll (verifyAuthority requires chain 2 false [singleAccount 12, singleAccount 10] {1}) ∧
      ¬ FindsAll (verifyAuthority requires chain 2 false [singleAccount 10, singleAccount 12] {1})) ∧
    (FindsAll (verifyAuthority requires chain 2 false [keyOrAccount 2 12, singleAccount 10] {1}) ∧
      ¬ FindsAll (verifyAuthority requires chain 2 false [keyOrAccount 2 12, singleAccount 10] {1, 2})) := by
  have hsort : Finset.sort ({1, 2} : Finset ℕ) (· ≤ ·) = [1, 2] :=
    (Finset.sort_insert (· ≤ ·) (by decide) (by decide)).trans
      (congrArg (List.cons 1) (Finset.sort_singleton (· ≤ ·) 2))
  simp only [verifyAuthority, checkRequired, init, requires, Required.add, List.foldl_cons,
    List.foldl_nil, Finset.empty_union, Finset.sort_singleton, Finset.sort_empty, hsort]
  decide +kernel

end Example

end Outcome

end FinChain.Protocol
