import FinChain.Protocol.AuthoritySound

/-!
# What the search finds within its depth

`check_authority` goes down from an authority to the active authorities of its members only so many
levels. `KnownWithin` says which accounts are proved within a number of levels, without any search and
without anything being remembered: from the approvals as they are given, and nothing else. It grows with
the keys and with the levels, and all levels together are the derivations of `Vouched`
(`vouched_iff_knownWithin`).

The search is complete for it (`checkAuthority_complete`): whatever it remembers from before, and
whatever other signatures there are, it finds an authority that is met within its levels. That is not
to say that it finds no more. An account that was found with many levels left is remembered, and then
counts where few are left, too.

The weights are added up in 32 bits, which must be enough for all members of an authority
(`Authority.Fits`). Weights have 16 bits, so it is for any authority with at most 65537 members.
-/

namespace FinChain.Protocol

variable {Key : Type}

/-- All weights of an authority can be added up. -/
def Authority.Fits (auth : Authority Key) : Prop :=
  (auth.keyAuths.map Prod.snd).sum + (auth.accountAuths.map Prod.snd).sum < 2 ^ 32

instance (auth : Authority Key) : Decidable auth.Fits := inferInstanceAs (Decidable (_ < _))

/-- The weights of some members that are keys of the set or accounts with the property add up to the
threshold. -/
def MetBy (keys : Finset Key) (known : ℕ → Prop) (auth : Authority Key) : Prop :=
  ∃ (signers : List (Key × ℕ)) (approvers : List (ℕ × ℕ)), signers.Sublist auth.keyAuths ∧
    approvers.Sublist auth.accountAuths ∧ (∀ m ∈ signers, m.1 ∈ keys) ∧
    (∀ m ∈ approvers, known m.1) ∧
    auth.weightThreshold ≤ (signers.map Prod.snd).sum + (approvers.map Prod.snd).sum

theorem MetBy.mono {keys keys' : Finset Key} {known known' : ℕ → Prop} {auth : Authority Key}
    (h : MetBy keys known auth) (hkeys : keys ⊆ keys') (hknown : ∀ a, known a → known' a) :
    MetBy keys' known' auth := by
  obtain ⟨signers, approvers, hsigners, happrovers, hk, ha, hweight⟩ := h
  exact ⟨signers, approvers, hsigners, happrovers, fun m hm => hkeys (hk m hm),
    fun m hm => hknown _ (ha m hm), hweight⟩

/-- The accounts that approve without any search. -/
def Given (approved : Finset ℕ) (account : ℕ) : Prop :=
  account ∈ insert tempAccount approved

/-- The accounts that are proved within a number of levels. -/
def KnownWithin (getActive : ℕ → Option (Authority Key)) (keys : Finset Key) (base : ℕ → Prop) :
    ℕ → ℕ → Prop
  | 0, account => base account
  | levels + 1, account => base account ∨ ∃ auth, getActive account = some auth ∧
      MetBy keys (KnownWithin getActive keys base levels) auth

section Levels

variable {getActive : ℕ → Option (Authority Key)} {keys keys' : Finset Key} {base : ℕ → Prop}
  {approved : Finset ℕ}

theorem KnownWithin.succ : ∀ {levels account : ℕ}, KnownWithin getActive keys base levels account →
    KnownWithin getActive keys base (levels + 1) account
  | 0, _, h => .inl h
  | _ + 1, _, .inl h => .inl h
  | _ + 1, _, .inr ⟨auth, hactive, hmet⟩ =>
    .inr ⟨auth, hactive, hmet.mono (Finset.Subset.refl _) fun _ => KnownWithin.succ⟩

theorem KnownWithin.mono {levels levels' account : ℕ} (hle : levels ≤ levels')
    (h : KnownWithin getActive keys base levels account) :
    KnownWithin getActive keys base levels' account := by
  induction hle with
  | refl => exact h
  | step _ ih => exact ih.succ

theorem KnownWithin.mono_keys (hkeys : keys ⊆ keys') : ∀ {levels account : ℕ},
    KnownWithin getActive keys base levels account → KnownWithin getActive keys' base levels account
  | 0, _, h => h
  | _ + 1, _, .inl h => .inl h
  | _ + 1, _, .inr ⟨auth, hactive, hmet⟩ =>
    .inr ⟨auth, hactive, hmet.mono hkeys fun _ => KnownWithin.mono_keys hkeys⟩

/-- What is proved within some levels has a derivation. -/
theorem KnownWithin.vouched : ∀ {levels account : ℕ},
    KnownWithin getActive keys (Given approved) levels account →
      Vouched getActive keys approved account := by
  have hgiven : ∀ {account}, Given approved account → Vouched getActive keys approved account := by
    intro account h
    rcases Finset.mem_insert.mp h with rfl | h
    · exact .temp
    · exact .approved h
  intro levels
  induction levels with
  | zero => exact fun h => hgiven h
  | succ levels ih =>
    rintro account (h | ⟨auth, hactive, signers, approvers, hsigners, happrovers, hk, ha, hweight⟩)
    · exact hgiven h
    · exact .active hactive (.intro hsigners happrovers hk (fun m hm => ih (ha m hm)) hweight)

/-- Finitely many accounts are proved within a common number of levels. -/
theorem exists_levels : ∀ {approvers : List (ℕ × ℕ)},
    (∀ m ∈ approvers, ∃ levels, KnownWithin getActive keys base levels m.1) →
      ∃ levels, ∀ m ∈ approvers, KnownWithin getActive keys base levels m.1
  | [], _ => ⟨0, fun m hm => by cases hm⟩
  | m :: approvers, h => by
    obtain ⟨n, hn⟩ := h m List.mem_cons_self
    obtain ⟨k, hk⟩ := exists_levels fun m' hm' => h m' (List.mem_cons_of_mem m hm')
    refine ⟨max n k, fun m' hm' => ?_⟩
    rcases List.mem_cons.mp hm' with rfl | hm'
    · exact hn.mono (Nat.le_max_left n k)
    · exact (hk m' hm').mono (Nat.le_max_right n k)

/-- **All levels together** are the derivations. -/
theorem vouched_iff_knownWithin {account : ℕ} : Vouched getActive keys approved account ↔
    ∃ levels, KnownWithin getActive keys (Given approved) levels account := by
  refine ⟨fun h => ?_, fun ⟨_, h⟩ => h.vouched⟩
  refine @Vouched.rec Key getActive keys approved
    (fun auth _ => ∃ levels, MetBy keys (KnownWithin getActive keys (Given approved) levels) auth)
    (fun account _ => ∃ levels, KnownWithin getActive keys (Given approved) levels account)
    ?_ ?_ ?_ ?_ account h
  · intro auth signers approvers hsigners happrovers hk _ hweight ih
    obtain ⟨levels, hlevels⟩ := exists_levels ih
    exact ⟨levels, signers, approvers, hsigners, happrovers, hk, hlevels, hweight⟩
  · exact ⟨0, Finset.mem_insert_self _ _⟩
  · intro account h
    exact ⟨0, Finset.mem_insert_of_mem h⟩
  · intro account auth hactive _ ih
    obtain ⟨levels, hmet⟩ := ih
    exact ⟨levels + 1, .inr ⟨auth, hactive, hmet⟩⟩

theorem derived_iff_metBy {auth : Authority Key} : Derived getActive keys approved auth ↔
    MetBy keys (Vouched getActive keys approved) auth := by
  constructor
  · rintro ⟨hsigners, happrovers, hk, ha, hweight⟩
    exact ⟨_, _, hsigners, happrovers, hk, ha, hweight⟩
  · rintro ⟨signers, approvers, hsigners, happrovers, hk, ha, hweight⟩
    exact .intro hsigners happrovers hk ha hweight

theorem Derived.mono_keys (hkeys : keys ⊆ keys') {auth : Authority Key}
    (h : Derived getActive keys approved auth) : Derived getActive keys' approved auth := by
  refine derived_iff_metBy.mpr (MetBy.mono (derived_iff_metBy.mp h) hkeys fun account hvouched => ?_)
  obtain ⟨levels, hknown⟩ := vouched_iff_knownWithin.mp hvouched
  exact vouched_iff_knownWithin.mpr ⟨levels, hknown.mono_keys hkeys⟩

end Levels

/-! ### Completeness of the search -/

namespace SignState

variable [LinearOrder Key]

variable {getActive : ℕ → Option (Authority Key)} {keys : Finset Key} {base : ℕ → Prop}

/-- The keys can be used and the accounts are known to approve. Other keys and other accounts may be,
too. -/
structure Ready (keys : Finset Key) (base : ℕ → Prop) (s : SignState Key) : Prop where
  approvedBy : ∀ account, base account → account ∈ s.approvedBy
  provided : ∀ k ∈ keys, (s.providedSignatures.lookup k).isSome ∨ k ∈ s.availableKeys

/-- A check keeps the state ready, and it is passed if the property holds. -/
def Complete (keys : Finset Key) (base : ℕ → Prop) (p : Prop)
    (check : SignState Key → Bool × SignState Key) : Prop :=
  ∀ s, Ready keys base s → Ready keys base (check s).2 ∧ (p → (check s).1 = true)

omit [LinearOrder Key] in
/-- **The loop over members** adds up at least the weights of those that pass. -/
theorem weigh_complete {μ : Type} (threshold : ℕ) {test : μ → SignState Key → Bool × SignState Key}
    {J : SignState Key → Prop} {members chosen : List (μ × ℕ)} (hsub : chosen.Sublist members) :
    (∀ m ∈ members, ∀ s, J s → J (test m.1 s).2) →
    (∀ m ∈ chosen, ∀ s, J s → (test m.1 s).1 = true) →
    ∀ (total : ℕ) (s : SignState Key), total + (members.map Prod.snd).sum < 2 ^ 32 → J s →
      J (weigh threshold test members total s).2 ∧
        ((weigh threshold test members total s).1.1 = true ∨
          total + (chosen.map Prod.snd).sum ≤ (weigh threshold test members total s).1.2 ∧
            (weigh threshold test members total s).1.2 ≤ total + (members.map Prod.snd).sum) := by
  induction hsub with
  | slnil =>
    intro _ _ total s _ hs
    exact ⟨hs, .inr ⟨le_rfl, le_rfl⟩⟩
  | @cons chosen members e _ ih =>
    intro hkeep hpass total s hfits hs
    have hkeep' := fun m hm => hkeep m (List.mem_cons_of_mem e hm)
    have hs' := hkeep e List.mem_cons_self s hs
    rw [List.map_cons, List.sum_cons] at hfits
    obtain ⟨m, w⟩ := e
    unfold weigh
    cases htest : test m s with
    | mk passed s' =>
      rw [htest] at hs'
      cases passed with
      | false =>
        obtain ⟨hJ, hrest⟩ := ih hkeep' hpass total s' (by omega) hs'
        refine ⟨hJ, hrest.imp_right fun h => ⟨h.1, h.2.trans ?_⟩⟩
        rw [List.map_cons, List.sum_cons]
        omega
      | true =>
        dsimp only
        have hmod : (total + w) % 2 ^ 32 = total + w := Nat.mod_eq_of_lt (by omega)
        rw [hmod]
        split
        · exact ⟨hs', .inl rfl⟩
        · obtain ⟨hJ, hrest⟩ := ih hkeep' hpass (total + w) s' (by omega) hs'
          refine ⟨hJ, hrest.imp_right fun h => ⟨?_, h.2.trans ?_⟩⟩
          · exact le_trans (by omega) h.1
          · rw [List.map_cons, List.sum_cons]
            omega
  | @cons_cons chosen members e _ ih =>
    intro hkeep hpass total s hfits hs
    have hkeep' := fun m hm => hkeep m (List.mem_cons_of_mem e hm)
    have hpass' := fun m hm => hpass m (List.mem_cons_of_mem e hm)
    have hs' := hkeep e List.mem_cons_self s hs
    have htrue := hpass e List.mem_cons_self s hs
    rw [List.map_cons, List.sum_cons] at hfits
    obtain ⟨m, w⟩ := e
    unfold weigh
    cases htest : test m s with
    | mk passed s' =>
      rw [htest] at hs' htrue
      obtain rfl : passed = true := htrue
      dsimp only
      have hmod : (total + w) % 2 ^ 32 = total + w := Nat.mod_eq_of_lt (by omega)
      rw [hmod]
      split
      · exact ⟨hs', .inl rfl⟩
      · obtain ⟨hJ, hrest⟩ := ih hkeep' hpass' (total + w) s' (by omega) hs'
        refine ⟨hJ, hrest.imp_right fun h => ⟨?_, h.2.trans ?_⟩⟩
        · rw [List.map_cons, List.sum_cons]
          exact le_trans (by omega) h.1
        · rw [List.map_cons, List.sum_cons]
          omega

theorem complete_signedBy (k : Key) : Complete keys base (k ∈ keys) (signedBy k) := by
  intro s hs
  unfold signedBy
  split
  · refine ⟨⟨hs.approvedBy, fun k' hk' => ?_⟩, fun _ => rfl⟩
    by_cases heq : k' = k
    · refine .inl ?_
      rw [heq, AList.lookup_insert]
      rfl
    · rw [AList.lookup_insert_ne heq]
      exact hs.provided k' hk'
  · next hnot => exact ⟨hs, fun hk => absurd (hs.provided k hk) hnot⟩

theorem complete_approves {check : Option (ℕ → SignState Key → Bool × SignState Key)} {account : ℕ}
    {p : Prop} (hcheck : ∀ c ∈ check, Complete keys base p (c account))
    (hp : p → check ≠ none) : Complete keys base (base account ∨ p) (approves check account) := by
  intro s hs
  unfold approves
  split
  · exact ⟨hs, fun _ => rfl⟩
  · next hnot =>
    have hbase : ¬ base account := fun h => hnot (hs.approvedBy account h)
    cases check with
    | none => exact ⟨hs, fun h => absurd rfl (hp (h.resolve_left hbase))⟩
    | some c =>
      have hc := hcheck c rfl s hs
      dsimp only
      cases hrun : c account s with
      | mk found s' =>
        rw [hrun] at hc
        cases found with
        | false => exact ⟨hc.1, fun h => hc.2 (h.resolve_left hbase)⟩
        | true =>
          refine ⟨⟨fun a ha => ?_, hc.1.provided⟩, fun _ => rfl⟩
          exact Finset.mem_insert_of_mem (hc.1.approvedBy a ha)

theorem checkAuthority_none (levels : ℕ) (s : SignState Key) :
    checkAuthority getActive levels none s = (false, s) := by
  cases levels with
  | zero => rfl
  | succ levels => rfl

/-- The body of `check_authority` finds an authority whose members it finds. -/
theorem complete_checkMembers {check : Option (ℕ → SignState Key → Bool × SignState Key)}
    {auth : Authority Key} {known : ℕ → Prop} (hfits : auth.Fits)
    (hmembers : ∀ m ∈ auth.accountAuths, Complete keys base (known m.1) (approves check m.1)) :
    Complete keys base (MetBy keys known auth) (checkMembers check auth) := by
  intro s hs
  have hs₀ : Ready keys base { s with visited := auth :: s.visited } := ⟨hs.approvedBy, hs.provided⟩
  have hkeep : ∀ m ∈ auth.keyAuths, ∀ s, Ready keys base s → Ready keys base (signedBy m.1 s).2 :=
    fun m _ s hs => (complete_signedBy m.1 s hs).1
  have hkeep' : ∀ m ∈ auth.accountAuths, ∀ s, Ready keys base s →
      Ready keys base (approves check m.1 s).2 := fun m hm s hs => (hmembers m hm s hs).1
  unfold Authority.Fits at hfits
  -- whoever they are, the members that pass are counted
  have hrun : ∀ (signers : List (Key × ℕ)) (approvers : List (ℕ × ℕ)),
      signers.Sublist auth.keyAuths → approvers.Sublist auth.accountAuths → (∀ m ∈ signers, m.1 ∈ keys) →
      (∀ m ∈ approvers, known m.1) →
      Ready keys base (checkMembers check auth s).2 ∧ (auth.weightThreshold ≤
        (signers.map Prod.snd).sum + (approvers.map Prod.snd).sum →
          (checkMembers check auth s).1 = true) := by
    intro signers approvers hsigners happrovers hk ha
    obtain ⟨hs₁, hloop⟩ := weigh_complete auth.weightThreshold hsigners hkeep
      (fun m hm s hs => (complete_signedBy m.1 s hs).2 (hk m hm)) 0 _ (by omega) hs₀
    unfold checkMembers
    cases hweigh : weigh auth.weightThreshold signedBy auth.keyAuths 0
        { s with visited := auth :: s.visited } with
    | mk result s₁ =>
      obtain ⟨reached, total⟩ := result
      rw [hweigh] at hs₁ hloop
      cases reached with
      | true => exact ⟨hs₁, fun _ => rfl⟩
      | false =>
        obtain ⟨hlow, hhigh⟩ := hloop.resolve_left Bool.false_ne_true
        dsimp only at hlow hhigh
        obtain ⟨hs₂, hloop'⟩ := weigh_complete auth.weightThreshold happrovers hkeep'
          (fun m hm s hs => (hmembers m (happrovers.subset hm) s hs).2 (ha m hm)) total s₁
          (by omega) hs₁
        dsimp only
        cases hweigh' : weigh auth.weightThreshold (approves check) auth.accountAuths total s₁ with
        | mk result' s₂ =>
          obtain ⟨reached', total'⟩ := result'
          rw [hweigh'] at hs₂ hloop'
          refine ⟨hs₂, fun hweight => Bool.or_eq_true _ _ ▸ ?_⟩
          rcases hloop' with hreached | ⟨hlow', -⟩
          · exact .inl hreached
          · have hlow'' : total + (approvers.map Prod.snd).sum ≤ total' := hlow'
            have hle : auth.weightThreshold ≤ total' := by omega
            exact .inr (decide_eq_true hle)
  refine ⟨(hrun [] [] (List.nil_sublist _) (List.nil_sublist _) (by simp) (by simp)).1, ?_⟩
  rintro ⟨signers, approvers, hsigners, happrovers, hk, ha, hweight⟩
  exact (hrun signers approvers hsigners happrovers hk ha).2 hweight

/-- **The search is complete** for what is met within its levels. -/
theorem complete_checkAuthority (hgraph : ∀ a auth, getActive a = some auth → auth.Fits) :
    ∀ (levels : ℕ) {o : Option (Authority Key)}, (∀ auth, o = some auth → auth.Fits) →
      Complete keys base
        (∃ auth, o = some auth ∧ MetBy keys (KnownWithin getActive keys base levels) auth)
        (checkAuthority getActive levels o)
  | levels, none, _ => by
    intro s hs
    rw [checkAuthority_none]
    exact ⟨hs, fun ⟨auth, hauth, _⟩ => by cases hauth⟩
  | 0, some auth, hfits => by
    have happroves : ∀ account, Complete keys base (base account ∨ False) (approves none account) :=
      fun account => complete_approves (fun c hc => by cases hc) fun h => h.elim
    have hcheck : Complete keys base (MetBy keys (KnownWithin getActive keys base 0) auth)
        (checkMembers none auth) := by
      refine complete_checkMembers (hfits auth rfl) fun m _ s hs => ?_
      obtain ⟨hs', hpass⟩ := happroves m.1 s hs
      exact ⟨hs', fun h => hpass (.inl h)⟩
    intro s hs
    refine ⟨(hcheck s hs).1, fun ⟨auth', hauth', hmet⟩ => (hcheck s hs).2 ?_⟩
    obtain rfl := Option.some.inj hauth'
    exact hmet
  | levels + 1, some auth, hfits => by
    have hcheck : Complete keys base (MetBy keys (KnownWithin getActive keys base (levels + 1)) auth)
        (checkMembers (some fun account => checkAuthority getActive levels (getActive account))
          auth) := by
      refine complete_checkMembers (hfits auth rfl) fun m _ => ?_
      refine complete_approves (fun c hc => ?_) fun _ => Option.some_ne_none _
      obtain rfl := Option.some.inj hc
      exact complete_checkAuthority hgraph levels (hgraph m.1)
    intro s hs
    refine ⟨(hcheck s hs).1, fun ⟨auth', hauth', hmet⟩ => (hcheck s hs).2 ?_⟩
    obtain rfl := Option.some.inj hauth'
    exact hmet

end SignState

end FinChain.Protocol
