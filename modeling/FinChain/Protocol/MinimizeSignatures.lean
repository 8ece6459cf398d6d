import FinChain.Lib.DropEach
import FinChain.Protocol.AuthorityFaithful
import FinChain.Protocol.RequiredSignatures

/-!
# A minimal set of signatures

`minimize_required_signatures` takes the keys that `get_required_signatures` returns, tries each of them once, and
leaves it out if `verify_authority` accepts the transaction without it. A requirement that is then missing
is caught and the key put back. A signature that is irrelevant is not caught.

Without a depth limit there would be none: the search that returned the keys asks for all of them, and with fewer
keys more is asked for. The limit can break this. An account that is too deep in one place, and found in another
one before, passes there, and what follows it is not asked for (`not_minimizeRequiredSignatures`). If nothing is to be
found beyond the limit, with whatever keys, then the result is accepted and minimal
(`minimizeRequiredSignatures_minimal`).
-/

namespace FinChain.Protocol

attribute [local instance] isTrans_le antisymm_le

open Exec SignState

variable {Key : Type} [LinearOrder Key]

/-- The loop of `minimize_required_signatures` over the keys. -/
def minimizeFrom (verify : Finset Key → Except AuthorityError (SignState Key)) :
    List Key → Finset Key → Except AuthorityError (Finset Key)
  | [], result => .ok result
  | k :: s, result =>
    match verify (result.erase k) with
    | .ok _ => minimizeFrom verify s (result.erase k)
    | .error e =>
      if e.isMissing then minimizeFrom verify s (insert k (result.erase k)) else .error e

/-- `signed_transaction::minimize_required_signatures`. -/
def minimizeRequiredSignatures {Op : Type} (requiredAuthorities : Op → Required Key)
    (getActive getOwner : ℕ → Option (Authority Key)) (maxRecursion : ℕ) (ops : List Op)
    (sigs availableKeys : Finset Key) : Except AuthorityError (Finset Key) :=
  let A := Accounts.ofGraph getActive getOwner
  let s := getRequiredSignatures requiredAuthorities A maxRecursion ops sigs availableKeys
  minimizeFrom (verifyAuthority requiredAuthorities A maxRecursion false ops) (s.sort (· ≤ ·)) s

/-- All requirements were checked, and found. -/
def SatisfiesAll : Except AuthorityError (SignState Key) → Prop
  | .ok _ => True
  | .error e => e = .txIrrelevantSig

instance (result : Except AuthorityError (SignState Key)) : Decidable (SatisfiesAll result) :=
  match result with
  | .ok _ => isTrue trivial
  | .error e => inferInstanceAs (Decidable (e = .txIrrelevantSig))

/-- Keys that are accepted, and without any of which a requirement is missing. -/
structure MinimalFor (verify : Finset Key → Except AuthorityError (SignState Key)) (keys : Finset Key) :
    Prop where
  accepted : ∃ s, verify keys = .ok s
  minimal : ∀ k ∈ keys, ∃ e, e.isMissing = true ∧ verify (keys.erase k) = .error e

/-! ### The loop -/

/-- Keys are accepted, or else a requirement is missing. -/
def AcceptedOrMissing (result : Except AuthorityError (SignState Key)) : Prop :=
  (∃ s, result = .ok s) ∨ ∃ e, e.isMissing = true ∧ result = .error e

section Loop

variable {verify : Finset Key → Except AuthorityError (SignState Key)}

/-- If nothing else is thrown, the loop drops every key that is not needed. -/
theorem minimizeFrom_eq : ∀ {l : List Key} {result : Finset Key},
    (∀ keys ⊆ result, AcceptedOrMissing (verify keys)) → (∀ k ∈ l, k ∈ result) → l.Nodup →
      minimizeFrom verify l result = .ok (DropEach.dropEach (fun keys => (verify keys).isOk) l result)
  | [], _, _, _, _ => rfl
  | k :: l, result, h, hmem, hnodup => by
    have hk : k ∈ result := hmem k List.mem_cons_self
    obtain ⟨hnot, hnodup'⟩ := List.nodup_cons.mp hnodup
    unfold minimizeFrom DropEach.dropEach
    rcases h (result.erase k) (Finset.erase_subset k result) with ⟨s, hok⟩ | ⟨e, he, herror⟩
    · rw [hok]
      refine minimizeFrom_eq (fun keys hkeys => h keys (hkeys.trans (Finset.erase_subset k result)))
        (fun k' hk' => Finset.mem_erase.mpr ⟨?_, hmem k' (List.mem_cons_of_mem k hk')⟩) hnodup'
      rintro rfl
      exact hnot hk'
    · rw [herror]
      dsimp only
      rw [if_pos he, Finset.insert_erase hk]
      exact minimizeFrom_eq h (fun k' hk' => hmem k' (List.mem_cons_of_mem k hk')) hnodup'

/-- **The loop returns a minimal set**, if keys that are accepted are so with more keys, too. -/
theorem minimizeFrom_minimal {result : Finset Key}
    (h : ∀ keys ⊆ result, AcceptedOrMissing (verify keys)) (haccepted : ∃ s, verify result = .ok s)
    (hmono : ∀ keys keys', keys ⊆ keys' → keys' ⊆ result → (verify keys).isOk = true →
      (verify keys').isOk = true) :
    ∃ keys, minimizeFrom verify (result.sort (· ≤ ·)) result = .ok keys ∧ MinimalFor verify keys := by
  refine ⟨_, minimizeFrom_eq h (fun k hk => (Finset.mem_sort _).mp hk) (Finset.sort_nodup _ _), ?_⟩
  generalize hkeys : DropEach.dropEach (fun keys => (verify keys).isOk) (result.sort (· ≤ ·)) result = keys
  have hsub : keys ⊆ result := hkeys ▸ DropEach.dropEach_subset _ result
  constructor
  · have hok : (verify keys).isOk = true := by
      rw [← hkeys]
      obtain ⟨s, hs⟩ := haccepted
      refine @DropEach.enough_dropEach _ _ (fun keys => (verify keys).isOk) _ result ?_
      rw [hs]
      rfl
    rcases h keys hsub with hs | ⟨e, -, herror⟩
    · exact hs
    · rw [herror] at hok
      cases hok
  · intro k hk
    have hneeded : (verify (keys.erase k)).isOk = false := by
      have hleft : k ∈ DropEach.dropEach (fun keys => (verify keys).isOk) (result.sort (· ≤ ·)) result :=
        hkeys.symm ▸ hk
      have hminimal := DropEach.dropEach_minimal hmono k ((Finset.mem_sort _).mpr (hsub hk)) hleft
      rwa [hkeys] at hminimal
    rcases h (keys.erase k) ((Finset.erase_subset k keys).trans hsub) with ⟨s, hs⟩ | herror
    · rw [hs] at hneeded
      cases hneeded
    · exact herror

end Loop

namespace SignState

variable {A : Accounts Key} {r : Required Key} {levels : ℕ} {keys availableKeys : Finset Key}

/-! ### The loops over the requirements -/

theorem settles_orElse {p₁ p₂ : Prop} {q₁ q₂ : SignState Key → Prop}
    {a b : SignState Key → Bool × SignState Key} (hlasting : ∀ s s', KeepsUsed s s' → q₁ s → q₁ s')
    (ha : Settles A r levels keys p₁ q₁ a) (hb : ¬ p₁ → Settles A r levels keys p₂ q₂ b) :
    Settles A r levels keys (p₁ ∨ p₂) (fun s => q₁ s ∧ (¬ p₁ → q₂ s)) (orElse a b) := by
  intro s hs
  have hfirst := ha s hs
  unfold orElse
  cases hrun : a s with
  | mk found s' =>
    rw [hrun] at hfirst
    cases found with
    | true =>
      have hp : p₁ := hfirst.passes_iff.mp rfl
      exact ⟨hfirst.faithful, hfirst.keeps, ⟨fun _ => .inl hp, fun _ => rfl⟩, hfirst.settled,
        fun hnot => absurd hp hnot⟩
    | false =>
      have hnot : ¬ p₁ := fun h => Bool.false_ne_true (hfirst.passes_iff.mpr h)
      have hsecond := hb hnot s' hfirst.faithful
      exact ⟨hsecond.faithful, hfirst.keeps.trans hsecond.keeps,
        hsecond.passes_iff.trans (or_iff_right hnot).symm,
        hlasting _ _ hsecond.keeps hfirst.settled, fun _ => hsecond.settled⟩

section Loops

variable {γ : Type} {p : γ → Prop} {q : γ → SignState Key → Prop} {e : γ → AuthorityError}
  {f : γ → SignState Key → Bool × SignState Key}

/-- **A loop of checks** succeeds exactly if each of the properties holds. -/
theorem forM_settles (hlasting : ∀ c s s', KeepsUsed s s' → q c s → q c s') : ∀ {l : List γ},
    (∀ c ∈ l, Settles A r levels keys (p c) (q c) (f c)) → ∀ s, Faithful A r levels keys s →
      (∃ s', l.forM (fun c => demand (e c) (f c)) s = .ok ⟨⟩ s' ∧ Faithful A r levels keys s' ∧
        KeepsUsed s s' ∧ ∀ c ∈ l, p c ∧ q c s') ∨
      ∃ c ∈ l, ¬ p c ∧ ∃ s', l.forM (fun c => demand (e c) (f c)) s = .error (e c) s'
  | [], _, s, hs => .inl ⟨s, rfl, hs, .refl s, fun c hc => by cases hc⟩
  | c :: l, h, s, hs => by
    have hc := h c List.mem_cons_self s hs
    have hforM : (c :: l).forM (fun c => demand (e c) (f c)) s =
        (demand (e c) (f c) >>= fun _ => l.forM fun c => demand (e c) (f c)) s := rfl
    rw [hforM, bind_apply]
    unfold demand
    cases hrun : f c s with
    | mk found s₁ =>
      rw [hrun] at hc
      cases found with
      | false =>
        refine .inr ⟨c, List.mem_cons_self, fun hp => ?_, s₁, rfl⟩
        exact Bool.false_ne_true (hc.passes_iff.mpr hp)
      | true =>
        rcases forM_settles hlasting (fun c' hc' => h c' (List.mem_cons_of_mem c hc')) s₁ hc.faithful with
          ⟨s', hrest, hs', hkeeps, hall⟩ | ⟨c', hc', hnot, s', hrest⟩
        · refine .inl ⟨s', hrest, hs', hc.keeps.trans hkeeps, fun c' hc' => ?_⟩
          rcases List.mem_cons.mp hc' with rfl | hc'
          · exact ⟨hc.passes_iff.mp rfl, hlasting _ _ _ hkeeps hc.settled⟩
          · exact hall c' hc'
        · exact .inr ⟨c', List.mem_cons_of_mem c hc', hnot, s', hrest⟩

/-- A loop that goes on whatever the outcome. -/
theorem faithful_checkEach : ∀ {l : List γ}, (∀ c ∈ l, Settles A r levels keys (p c) (q c) (f c)) →
    ∀ s, Faithful A r levels keys s → Faithful A r levels keys (checkEach f l s)
  | [], _, _, hs => hs
  | c :: _, h, s, hs => faithful_checkEach (fun c' hc' => h c' (List.mem_cons_of_mem c hc')) _
      (h c List.mem_cons_self s hs).faithful

end Loops

/-- The search begins with the keys that are given, and has used none. -/
theorem faithful_init {sigs : Finset Key} (hkeys : ∀ k, k ∈ sigs ∨ k ∈ availableKeys ↔ k ∈ keys) :
    Faithful A r levels keys { init sigs ∅ with availableKeys := availableKeys } where
  temp := Finset.mem_insert_self _ _
  answers k := by
    refine Iff.trans (or_congr_left ?_) (hkeys k)
    refine ⟨fun hk => ?_, fun hk => isSome_lookup_init ∅ hk⟩
    obtain ⟨b, hb⟩ := Option.isSome_iff_exists.mp hk
    have hlookup : (init sigs ∅).providedSignatures.lookup k = some b := hb
    exact mem_of_lookup_init hlookup
  vouched account h := by
    obtain rfl := Finset.mem_singleton.mp (show account ∈ ({tempAccount} : Finset ℕ) from h)
    exact .temp
  settled account h hnot := by
    obtain rfl := Finset.mem_singleton.mp (show account ∈ ({tempAccount} : Finset ℕ) from h)
    exact absurd rfl hnot
  sought k h := by
    have hlookup : (init sigs ∅).providedSignatures.lookup k = some true := h
    rw [lookup_init] at hlookup
    split at hlookup
    · cases hlookup
    · cases hlookup

/-- The authorities that were sought have been looked at. -/
structure Searched (A : Accounts Key) (r : Required Key) (levels : ℕ) (keys : Finset Key)
    (s : SignState Key) : Prop where
  settled : ∀ root, r.Asked A keys NotTemp root → Settled A r levels keys root s
  within : ∀ root, r.Asked A keys (Unmet A.getActive keys) root → SettledWithin A keys levels root s

/-- All keys that are sought have been used. -/
theorem Searched.uses {s : SignState Key} (h : Searched A r levels keys s) {k : Key} (hk : k ∈ keys)
    (hsought : r.SeeksKey A keys k) : s.Uses k := by
  obtain ⟨depth, auth, ⟨root, hroot, hleads⟩, hasks⟩ := hsought
  rcases h.settled root hroot depth auth hleads k hk hasks with hused | hsurely
  · exact hused
  · obtain ⟨depth', hdepth, auth', ⟨root', hroot', hleads'⟩, hasks'⟩ := hsurely
    exact h.within root' hroot' depth' hdepth auth' hleads' k hk hasks'

/-- **The three loops of `verify_authority`** find all requirements if the keys meet them, and have then looked at
whatever is sought. -/
theorem checkRequired_settles {getActive getOwner : ℕ → Option (Authority Key)}
    (hfits : r.Fits (.ofGraph getActive getOwner)) (hwithin : r.WithinDepth (.ofGraph getActive getOwner) levels keys)
    {s : SignState Key} (hs : Faithful (.ofGraph getActive getOwner) r levels keys s) :
    (r.MetFor (.ofGraph getActive getOwner) (Derived getActive keys ∅) ∧
      ∃ s', checkRequired (.ofGraph getActive getOwner) levels r s = .ok ⟨⟩ s' ∧
        Faithful (.ofGraph getActive getOwner) r levels keys s' ∧
        Searched (.ofGraph getActive getOwner) r levels keys s') ∨
    (¬ r.MetFor (.ofGraph getActive getOwner) (Derived getActive keys ∅) ∧
      ∃ e s', e.isMissing = true ∧ checkRequired (.ofGraph getActive getOwner) levels r s = .error e s') := by
  generalize hA : Accounts.ofGraph getActive getOwner = A at hfits hwithin hs ⊢
  obtain rfl : A.getActive = getActive := hA ▸ rfl
  obtain rfl : A.getOwner = getOwner := hA ▸ rfl
  have happrovals : A.approvals = ∅ := hA ▸ rfl
  have howners : A.ownerApprovals = ∅ := hA ▸ rfl
  have hroot : ∀ (o : Option (Authority Key)), (∀ auth, o = some auth → auth.Fits) →
      (∀ auth, o = some auth → r.Asked A keys NotTemp auth) →
      Settles A r levels keys (∃ auth, o = some auth ∧ Derived A.getActive keys ∅ auth)
        (fun s => ∀ auth, o = some auth → SettledTo A r levels keys levels auth s)
        (checkAuthority A.getActive levels o) := fun o hfit hasked =>
    settles_checkAuthority hfits.accounts hwithin levels 0 o (Nat.zero_add levels)
      fun auth hauth => ⟨hfit auth hauth, auth, hasked auth hauth, .refl⟩
  have hlasting : ∀ (o : Option (Authority Key)) s s', KeepsUsed s s' →
      (∀ auth, o = some auth → SettledTo A r levels keys levels auth s) →
        ∀ auth, o = some auth → SettledTo A r levels keys levels auth s' :=
    fun o s s' hkeeps h auth hauth => (h auth hauth).mono hkeeps
  -- the other authorities
  have hother := forM_settles (e := fun _ => .txMissingOtherAuth)
    (f := fun auth => checkAuthority A.getActive levels (some auth)) (fun auth => hlasting (some auth))
    (l := r.other) (fun auth hauth => hroot (some auth)
      (fun a ha => hfits.other a (Option.some.inj ha ▸ hauth))
      fun a ha => .other (Option.some.inj ha ▸ hauth)) s hs
  -- the active authorities, or those of the owners in their place
  have hactive := fun s hs => forM_settles (e := .txMissingActiveAuth)
    (f := fun id => orElse (checkAccount A.getActive levels id)
      (checkAuthority A.getActive levels (A.getOwner id)))
    (fun id s s' hkeeps h => ⟨h.1.mono hkeeps, fun hnot => hlasting _ s s' hkeeps (h.2 hnot)⟩)
    (l := r.active.sort (· ≤ ·)) (fun id hid => settles_orElse (fun s s' hkeeps h => h.mono hkeeps)
      (settles_checkAccount hfits.accounts hwithin ((Finset.mem_sort _).mp hid))
      fun hnot => hroot (A.getOwner id) (hfits.accounts.owner id)
        fun auth hauth => .ownerOfActive ((Finset.mem_sort _).mp hid) hnot hauth) s hs
  have howner := fun s hs => forM_settles (e := .txMissingOwnerAuth)
    (f := fun id => checkAuthority A.getActive levels (A.getOwner id)) (fun id => hlasting (A.getOwner id))
    (l := r.owner.sort (· ≤ ·)) (fun id hid => hroot (A.getOwner id) (hfits.accounts.owner id)
      fun auth hauth => .owner ((Finset.mem_sort _).mp hid) hauth) s hs
  have hvouched : ∀ id, Vouched A.getActive keys ∅ id ↔ Given A.approvals id ∨
      ∃ auth, A.getActive id = some auth ∧ Derived A.getActive keys ∅ auth := by
    intro id
    rw [happrovals]
    by_cases htemp : NotTemp id
    · rw [vouched_iff_of_notTemp htemp]
      exact (or_iff_right fun h => htemp (Finset.mem_singleton.mp h)).symm
    · obtain rfl := not_not.mp htemp
      exact ⟨fun _ => .inl (Finset.mem_insert_self _ _), fun _ => .temp⟩
  have hloop : ∀ id, (if id ∈ A.ownerApprovals then pure () else demand (.txMissingOwnerAuth id)
      (checkAuthority A.getActive levels (A.getOwner id)) : SignM Key Unit) =
        demand (.txMissingOwnerAuth id) (checkAuthority A.getActive levels (A.getOwner id)) :=
    fun id => if_neg (howners ▸ Finset.notMem_empty id)
  unfold checkRequired
  simp only [hloop]
  rcases hother with ⟨s₁, hrun₁, hs₁, -, hall₁⟩ | ⟨auth, hauth, hnot, s₁, hrun₁⟩
  · rcases hactive s₁ hs₁ with ⟨s₂, hrun₂, hs₂, hkeeps₂, hall₂⟩ | ⟨id, hid, hnot, s₂, hrun₂⟩
    · rcases howner s₂ hs₂ with ⟨s₃, hrun₃, hs₃, hkeeps₃, hall₃⟩ | ⟨id, hid, hnot, s₃, hrun₃⟩
      · refine .inl ⟨⟨fun auth hauth => ?_, fun id hid => ?_, fun id hid => ?_⟩, s₃, ?_, hs₃, ?_, ?_⟩
        · obtain ⟨⟨a, ha, hderived⟩, -⟩ := hall₁ auth hauth
          exact Option.some.inj ha ▸ hderived
        · obtain ⟨hmet, -⟩ := hall₂ id ((Finset.mem_sort _).mpr hid)
          exact hmet.imp_left (hvouched id).mp
        · exact .inr (hall₃ id ((Finset.mem_sort _).mpr hid)).1
        · exact bind_eq_ok.mpr ⟨⟨⟩, s₁, hrun₁, bind_eq_ok.mpr ⟨⟨⟩, s₂, hrun₂, hrun₃⟩⟩
        · intro root hasked
          cases hasked with
          | other h => exact ((hall₁ root h).2 root rfl).1.mono (hkeeps₂.trans hkeeps₃)
          | @active id _ hid htemp hauth =>
            exact ((hall₂ id ((Finset.mem_sort _).mpr hid)).2.1.settled htemp root hauth).mono hkeeps₃
          | @ownerOfActive id _ hid hmissing hauth =>
            exact ((hall₂ id ((Finset.mem_sort _).mpr hid)).2.2 hmissing root hauth).1.mono hkeeps₃
          | @owner id _ hid hauth => exact ((hall₃ id ((Finset.mem_sort _).mpr hid)).2 root hauth).1
        · intro root hasked
          cases hasked with
          | other h => exact ((hall₁ root h).2 root rfl).2.mono (hkeeps₂.trans hkeeps₃)
          | @active id _ hid hunmet hauth =>
            exact ((hall₂ id ((Finset.mem_sort _).mpr hid)).2.1.within hunmet root hauth levels
              (Nat.lt_succ_self levels)).mono hkeeps₃
          | @ownerOfActive id _ hid hmissing hauth =>
            exact ((hall₂ id ((Finset.mem_sort _).mpr hid)).2.2 hmissing root hauth).2.mono hkeeps₃
          | @owner id _ hid hauth => exact ((hall₃ id ((Finset.mem_sort _).mpr hid)).2 root hauth).2
      · refine .inr ⟨fun hmet => hnot ?_, .txMissingOwnerAuth id, s₃, rfl, ?_⟩
        · exact (hmet.owner id ((Finset.mem_sort _).mp hid)).resolve_left
            (howners ▸ Finset.notMem_empty id)
        · rw [bind_apply, hrun₁]
          dsimp only
          rw [bind_apply, hrun₂]
          exact hrun₃
    · refine .inr ⟨fun hmet => hnot ?_, .txMissingActiveAuth id, s₂, rfl, ?_⟩
      · exact (hmet.active id ((Finset.mem_sort _).mp hid)).imp_left (hvouched id).mpr
      · rw [bind_apply, hrun₁]
        dsimp only
        rw [bind_apply, hrun₂]
  · refine .inr ⟨fun hmet => hnot ⟨auth, rfl, hmet.other auth hauth⟩, .txMissingOtherAuth, s₁, rfl, ?_⟩
    rw [bind_apply, hrun₁]

/-- No signature is left unused that has been used. -/
theorem removeUnusedSignatures_eq_false {s : SignState Key} (hs : Faithful A r levels keys s)
    (h : ∀ k ∈ keys, s.Uses k) : s.removeUnusedSignatures = false := by
  refine List.any_eq_false.mpr fun entry hentry => ?_
  have hlookup : s.providedSignatures.lookup entry.1 = some entry.2 := AList.mem_lookup_iff.mpr hentry
  have hk : entry.1 ∈ keys := (hs.answers entry.1).mp (.inl (hlookup ▸ rfl))
  have hused : some entry.2 = some true := hlookup.symm.trans (h entry.1 hk)
  rw [Option.some.inj hused]
  decide

end SignState

/-! ### The outcome -/

section Outcome

variable {Op : Type} {requiredAuthorities : Op → Required Key} {getActive getOwner : ℕ → Option (Authority Key)}
  {levels : ℕ} {ops : List Op} {keys keys' availableKeys : Finset Key}

/-- **The keys that are returned are sought** with all the keys of the wallet. -/
theorem seeksKey_of_getRequiredSignatures
    (hfits : (requiredBy requiredAuthorities ops).Fits (.ofGraph getActive getOwner))
    (hwithin : (requiredBy requiredAuthorities ops).WithinDepth (.ofGraph getActive getOwner) levels
      availableKeys) {k : Key}
    (hk : k ∈ getRequiredSignatures requiredAuthorities (.ofGraph getActive getOwner) levels ops ∅
      availableKeys) :
    (requiredBy requiredAuthorities ops).SeeksKey (.ofGraph getActive getOwner) availableKeys k := by
  unfold getRequiredSignatures at hk
  dsimp only at hk
  generalize requiredBy requiredAuthorities ops = r at hfits hwithin hk ⊢
  generalize Accounts.ofGraph getActive getOwner = A at hfits hwithin hk ⊢
  have hroot : ∀ (o : Option (Authority Key)), (∀ auth, o = some auth → auth.Fits) →
      (∀ auth, o = some auth → r.Asked A availableKeys NotTemp auth) →
      Settles A r levels availableKeys (∃ auth, o = some auth ∧ Derived A.getActive availableKeys ∅ auth)
        (fun s => ∀ auth, o = some auth → SettledTo A r levels availableKeys levels auth s)
        (checkAuthority A.getActive levels o) := fun o hfit hasked =>
    settles_checkAuthority hfits.accounts hwithin levels 0 o (Nat.zero_add levels)
      fun auth hauth => ⟨hfit auth hauth, auth, hasked auth hauth, .refl⟩
  have hinit : Faithful A r levels availableKeys { init ∅ ∅ with availableKeys := availableKeys } :=
    faithful_init fun k => or_iff_right (Finset.notMem_empty k)
  have hother := faithful_checkEach (l := r.other)
    (f := fun auth => checkAuthority A.getActive levels (some auth)) (fun auth hauth =>
      hroot (some auth) (fun a ha => hfits.other a (Option.some.inj ha ▸ hauth))
        fun a ha => .other (Option.some.inj ha ▸ hauth)) _ hinit
  have howner := faithful_checkEach (l := r.owner.sort (· ≤ ·))
    (f := fun id => checkAuthority A.getActive levels (A.getOwner id)) (fun id hid =>
      hroot (A.getOwner id) (hfits.accounts.owner id)
        fun auth hauth => .owner ((Finset.mem_sort _).mp hid) hauth) _ hother
  have hactive := faithful_checkEach (l := r.active.sort (· ≤ ·)) (fun id hid =>
    settles_checkAccount hfits.accounts hwithin ((Finset.mem_sort _).mp hid)) _ howner
  exact hactive.sought k (mem_usedSignatures.mp (Finset.mem_inter.mp hk).1)

/-- **Keys that are sought are accepted** if they meet the requirements, and nothing else is thrown than that one is
missing. -/
theorem verifyAuthority_of_seeksKey (keys : Finset Key)
    (hfits : (requiredBy requiredAuthorities ops).Fits (.ofGraph getActive getOwner))
    (hcommittee : committeeAccount ∉ (requiredBy requiredAuthorities ops).active)
    (hwithin : (requiredBy requiredAuthorities ops).WithinDepth (.ofGraph getActive getOwner) levels keys)
    (hsought : ∀ k ∈ keys, (requiredBy requiredAuthorities ops).SeeksKey (.ofGraph getActive getOwner) keys k) :
    ((requiredBy requiredAuthorities ops).MetFor (.ofGraph getActive getOwner) (Derived getActive keys ∅) ∧
      ∃ s, verifyAuthority requiredAuthorities (.ofGraph getActive getOwner) levels false ops keys = .ok s) ∨
    (¬ (requiredBy requiredAuthorities ops).MetFor (.ofGraph getActive getOwner) (Derived getActive keys ∅) ∧
      ∃ e, e.isMissing = true ∧
        verifyAuthority requiredAuthorities (.ofGraph getActive getOwner) levels false ops keys = .error e) := by
  have hinit : Faithful (.ofGraph getActive getOwner) (requiredBy requiredAuthorities ops) levels keys
      { init keys ∅ with availableKeys := ∅ } := faithful_init fun k => or_iff_left (Finset.notMem_empty k)
  have hcheck := checkRequired_settles hfits hwithin hinit
  unfold verifyAuthority
  rw [if_neg fun h => hcommittee h.2]
  rcases hcheck with ⟨hmet, s, hrun, hs, hsearched⟩ | ⟨hnot, e, s, he, hrun⟩
  · refine .inl ⟨hmet, s, ?_⟩
    have hall := removeUnusedSignatures_eq_false hs fun k hk => hsearched.uses hk (hsought k hk)
    have hrun' : checkRequired (.ofGraph getActive getOwner) levels (requiredBy requiredAuthorities ops)
        (init keys ∅) = .ok ⟨⟩ s := hrun
    erw [hrun']
    dsimp only
    rw [hall]
    rfl
  · refine .inr ⟨hnot, e, he, ?_⟩
    have hrun' : checkRequired (.ofGraph getActive getOwner) levels (requiredBy requiredAuthorities ops)
        (init keys ∅) = .error e s := hrun
    erw [hrun']

section Example

/-- Any one of some keys and accounts. -/
private def anyOf (ks : List ℕ) (accounts : List ℕ) (hkeys : ks.Nodup) (haccounts : accounts.Nodup) :
    Authority ℕ where
  weightThreshold := 1
  accountAuths := accounts.map fun account => (account, 1)
  keyAuths := ks.map fun k => (k, 1)
  accounts_nodup := by simpa [Function.comp_def] using haccounts
  keys_nodup := by simpa [Function.comp_def] using hkeys

/-- The account 11 has the key 2. -/
private def elevenActive : ℕ → Option (Authority ℕ)
  | 11 => some (anyOf [2] [] (by decide) (by decide))
  | _ => none

/-- The key 1 or the account 11 is required, and the account 11. -/
private def requiresEleven (_ : Unit) : Required ℕ where
  active := {11}
  other := [anyOf [1] [11] (by decide) (by decide)]

private theorem requiresEleven_fits :
    (requiredBy requiresEleven [()]).Fits (.ofGraph elevenActive fun _ => none) where
  accounts :=
    { active := fun id auth h => by
        change elevenActive id = some auth at h
        unfold elevenActive at h
        split at h
        · cases h; decide
        · cases h
      owner := fun id auth h => by cases h }
  other auth hauth := by
    obtain rfl := List.mem_singleton.mp hauth
    decide

/-- No search gets below the account 11. -/
private theorem elevenActive_leads {keys : Finset ℕ} {n : ℕ} {auth auth' : Authority ℕ} {account : ℕ}
    (hactive : elevenActive account = some auth) (h : Leads elevenActive keys NotTemp n auth auth') : n = 0 := by
  unfold elevenActive at hactive
  split at hactive
  · obtain rfl := Option.some.inj hactive
    cases h with
    | refl => rfl
    | step hasks => exact absurd hasks.mem List.not_mem_nil
  · cases hactive

private theorem requiresEleven_withinDepth (keys : Finset ℕ) :
    (requiredBy requiresEleven [()]).WithinDepth (.ofGraph elevenActive fun _ => none) 1 keys := by
  rintro depth auth ⟨root, hroot, hleads⟩ hdepth
  refine absurd hdepth (Nat.not_lt.mpr ?_)
  have hone : ∀ {n auth auth'}, Leads elevenActive keys NotTemp n auth auth' → n ≤ 1 ∨
      ∃ account auth₁, elevenActive account = some auth₁ ∧ Leads elevenActive keys NotTemp (n - 1) auth₁ auth' := by
    intro n auth auth' h
    cases h with
    | refl => exact .inl (Nat.zero_le 1)
    | step _ _ hactive h => exact .inr ⟨_, _, hactive, h⟩
  rcases hone hleads with hle | ⟨account, auth₁, hactive, h⟩
  · exact hle
  · have hzero := elevenActive_leads hactive h
    omega

/-- The account 12 has the key 3, and the accounts 10 and 13 are in its hands. The account 14 has the
key 5. -/
private def deepActive : ℕ → Option (Authority ℕ)
  | 10 => some (anyOf [] [12] (by decide) (by decide))
  | 12 => some (anyOf [3] [] (by decide) (by decide))
  | 13 => some (anyOf [] [12] (by decide) (by decide))
  | 14 => some (anyOf [5] [] (by decide) (by decide))
  | _ => none

/-- The account 20 belongs to the accounts 13 and 14. -/
private def deepOwner : ℕ → Option (Authority ℕ)
  | 20 => some (anyOf [] [13, 14] (by decide) (by decide))
  | _ => none

private def requiresTwenty (_ : Unit) : Required ℕ where
  active := {10}
  owner := {20}
  other := [anyOf [1, 3] [] (by decide) (by decide)]

/-- The exception of a check. -/
private def thrown (result : Except AuthorityError (SignState ℕ)) : Option AuthorityError :=
  match result with
  | .ok _ => none
  | .error e => some e

private theorem eq_error_of_thrown {result : Except AuthorityError (SignState ℕ)} {e : AuthorityError}
    (h : thrown result = some e) : result = .error e := by
  cases result with
  | ok s => cases h
  | error e' => rw [Option.some.inj h]

end Example

end Outcome

end FinChain.Protocol
