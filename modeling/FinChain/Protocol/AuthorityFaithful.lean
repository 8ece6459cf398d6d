import FinChain.Protocol.AuthoritySought
import Mathlib.Algebra.Order.Group.Nat

/-!
# The search finds what is sought

If nothing is to be found beyond the depth limit (`WithinDepth`), the search of the program does what the one without
a limit would do. An authority passes exactly if the keys meet it, and the keys that are sought have then been used
(`settles_checkAuthority`).

For the accounts that are remembered this is part of the invariant (`Faithful`): whatever they lead to has been
dealt with when they were found. Keys that are sought both beyond the limit and within it need not be used where the
search is cut off; they are used elsewhere, and `Settled` leaves them out. `SettledWithin` has them: no account on the
way to them is ever remembered, so the search does come to them.
-/

namespace FinChain.Protocol

namespace SignState

variable {Key : Type} [LinearOrder Key]

/-- A key has been used. -/
def Uses (s : SignState Key) (k : Key) : Prop := s.providedSignatures.lookup k = some true

/-- Keys that have been used stay so. -/
def KeepsUsed (s s' : SignState Key) : Prop := ∀ k, s.Uses k → s'.Uses k

theorem KeepsUsed.refl (s : SignState Key) : KeepsUsed s s := fun _ h => h

theorem KeepsUsed.trans {s s' s'' : SignState Key} (h : KeepsUsed s s') (h' : KeepsUsed s' s'') :
    KeepsUsed s s'' := fun k hk => h' k (h k hk)

section Definitions

variable (A : Accounts Key) (r : Required Key) (levels : ℕ) (keys : Finset Key)

/-- The keys that an authority leads to have been used, or surely will be. -/
def Settled (auth : Authority Key) (s : SignState Key) : Prop :=
  ∀ n auth', Leads A.getActive keys NotTemp n auth auth' → ∀ k ∈ keys, AsksKey keys auth' k →
    s.Uses k ∨ r.SurelySeeksKey A levels keys k

/-- The keys that an authority leads to in some steps, through accounts that are never skipped, have been used. -/
def SettledWithin (steps : ℕ) (auth : Authority Key) (s : SignState Key) : Prop :=
  ∀ n ≤ steps, ∀ auth', Leads A.getActive keys (Unmet A.getActive keys) n auth auth' → ∀ k ∈ keys,
    AsksKey keys auth' k → s.Uses k

/-- The same of the active authority of an account, to which one step leads. -/
structure AccountSettled (steps account : ℕ) (s : SignState Key) : Prop where
  settled : NotTemp account → ∀ auth, A.getActive account = some auth → Settled A r levels keys auth s
  within : Unmet A.getActive keys account → ∀ auth, A.getActive account = some auth → ∀ left < steps,
    SettledWithin A keys left auth s

/-- The search has the keys, and what it remembers is right. -/
structure Faithful (s : SignState Key) : Prop where
  temp : tempAccount ∈ s.approvedBy
  answers : ∀ k, (s.providedSignatures.lookup k).isSome ∨ k ∈ s.availableKeys ↔ k ∈ keys
  vouched : ∀ account ∈ s.approvedBy, Vouched A.getActive keys ∅ account
  settled : ∀ account ∈ s.approvedBy, NotTemp account → ∀ auth, A.getActive account = some auth →
    Settled A r levels keys auth s
  sought : ∀ k, s.Uses k → r.SeeksKey A keys k

/-- A check is passed exactly if some property holds, and then it has settled something. -/
structure SettlesFrom (p : Prop) (q : SignState Key → Prop) (s : SignState Key)
    (result : Bool × SignState Key) : Prop where
  faithful : Faithful A r levels keys result.2
  keeps : KeepsUsed s result.2
  passes_iff : result.1 = true ↔ p
  settled : q result.2

/-- The same from any faithful state. -/
def Settles (p : Prop) (q : SignState Key → Prop) (check : SignState Key → Bool × SignState Key) : Prop :=
  ∀ s, Faithful A r levels keys s → SettlesFrom A r levels keys p q s (check s)

/-- What a loop over members has done. -/
structure Weighs {μ : Type} (p : μ → Prop) (q : μ → SignState Key → Prop) (threshold : ℕ)
    (members : List (μ × ℕ)) (total : ℕ) (s : SignState Key) (result : (Bool × ℕ) × SignState Key) : Prop where
  faithful : Faithful A r levels keys result.2
  keeps : KeepsUsed s result.2
  settled : ∀ m w rest t, GoesOn p threshold members total ((m, w) :: rest) t → q m result.2
  /-- The weight is that of members that pass. -/
  counted : ∃ chosen : List (μ × ℕ), chosen.Sublist members ∧ (∀ m ∈ chosen, p m.1) ∧
    result.1.2 = total + (chosen.map Prod.snd).sum
  reached : result.1.1 = true → threshold ≤ result.1.2 ∧ ∀ t, ¬ GoesOn p threshold members total [] t
  /-- Unless the threshold was reached, all that pass are counted. -/
  below : result.1.1 = false → GoesOn p threshold members total [] result.1.2 ∧
    ∀ chosen : List (μ × ℕ), chosen.Sublist members → (∀ m ∈ chosen, p m.1) →
      total + (chosen.map Prod.snd).sum ≤ result.1.2

end Definitions

variable {A : Accounts Key} {r : Required Key} {levels : ℕ} {keys : Finset Key}

/-! ### What was used stays used -/

theorem Settled.mono {auth : Authority Key} {s s' : SignState Key} (h : Settled A r levels keys auth s)
    (hkeeps : KeepsUsed s s') : Settled A r levels keys auth s' :=
  fun n auth' hleads k hk hasks => (h n auth' hleads k hk hasks).imp_left (hkeeps k)

theorem SettledWithin.mono {steps : ℕ} {auth : Authority Key} {s s' : SignState Key}
    (h : SettledWithin A keys steps auth s) (hkeeps : KeepsUsed s s') : SettledWithin A keys steps auth s' :=
  fun n hn auth' hleads k hk hasks => hkeeps k (h n hn auth' hleads k hk hasks)

theorem AccountSettled.mono {steps account : ℕ} {s s' : SignState Key}
    (h : AccountSettled A r levels keys steps account s) (hkeeps : KeepsUsed s s') :
    AccountSettled A r levels keys steps account s' where
  settled hnot auth hactive := (h.settled hnot auth hactive).mono hkeeps
  within hunmet auth hactive left hleft := (h.within hunmet auth hactive left hleft).mono hkeeps

omit [LinearOrder Key] in
/-- An account that needs signatures approves if its active authority is met. -/
theorem vouched_iff_of_notTemp {getActive : ℕ → Option (Authority Key)} {account : ℕ} (h : NotTemp account) :
    Vouched getActive keys ∅ account ↔
      ∃ auth, getActive account = some auth ∧ Derived getActive keys ∅ auth := by
  constructor
  · intro hvouched
    cases hvouched with
    | temp => exact absurd rfl h
    | approved happroved => exact absurd happroved (Finset.notMem_empty account)
    | active hactive hderived => exact ⟨_, hactive, hderived⟩
  · rintro ⟨auth, hactive, hderived⟩
    exact .active hactive hderived

/-! ### The loop over members -/

theorem settles_signedBy {k : Key} (hsought : r.SeeksKey A keys k) :
    Settles A r levels keys (k ∈ keys) (fun s => k ∈ keys → s.Uses k) (signedBy k) := by
  intro s hs
  unfold signedBy
  by_cases hk : (s.providedSignatures.lookup k).isSome ∨ k ∈ s.availableKeys
  · rw [if_pos hk]
    have hused : KeepsUsed s { s with providedSignatures := s.providedSignatures.insert k true } := by
      intro k' hk'
      by_cases heq : k' = k
      · rw [heq]
        exact AList.lookup_insert _
      · exact (AList.lookup_insert_ne heq).trans hk'
    refine ⟨⟨hs.temp, fun k' => ?_, hs.vouched, fun a ha hnot auth hactive =>
      (hs.settled a ha hnot auth hactive).mono hused, fun k' hk' => ?_⟩, hused, ?_, fun _ =>
        AList.lookup_insert _⟩
    · by_cases heq : k' = k
      · subst heq
        refine ⟨fun _ => (hs.answers k').mp hk, fun _ => .inl ?_⟩
        rw [AList.lookup_insert]
        rfl
      · rw [AList.lookup_insert_ne heq]
        exact hs.answers k'
    · by_cases heq : k' = k
      · exact heq ▸ hsought
      · exact hs.sought k' ((AList.lookup_insert_ne heq).symm.trans hk')
    · exact ⟨fun _ => (hs.answers k).mp hk, fun _ => rfl⟩
  · rw [if_neg hk]
    have hnot : k ∉ keys := fun h => hk ((hs.answers k).mpr h)
    exact ⟨hs, .refl s, ⟨fun h => absurd h Bool.false_ne_true, fun h => absurd h hnot⟩, fun h => absurd h hnot⟩

/-- **The loop over members** settles those it asks for, by induction on the members that are left. -/
theorem settles_weigh {μ : Type} {p : μ → Prop} {q : μ → SignState Key → Prop} (threshold : ℕ)
    {test : μ → SignState Key → Bool × SignState Key}
    (hlasting : ∀ m s s', KeepsUsed s s' → q m s → q m s') {members : List (μ × ℕ)} :
    ∀ (total : ℕ) (s : SignState Key), total + (members.map Prod.snd).sum < 2 ^ 32 →
      (∀ m w rest t, GoesOn p threshold members total ((m, w) :: rest) t →
        Settles A r levels keys (p m) (q m) (test m)) → Faithful A r levels keys s →
      Weighs A r levels keys p q threshold members total s (weigh threshold test members total s) := by
  induction members with
  | nil =>
    intro total s _ _ hs
    refine ⟨hs, .refl s, fun m w rest t h => ?_, ⟨[], List.Sublist.slnil, by simp, by simp [weigh]⟩,
      fun h => absurd h Bool.false_ne_true, fun _ => ⟨.refl, fun chosen hsub _ => ?_⟩⟩
    · cases h
    · rw [List.eq_nil_of_sublist_nil hsub]
      exact le_rfl
  | cons e members ih =>
    intro total s hfits htest hs
    obtain ⟨m, w⟩ := e
    rw [List.map_cons, List.sum_cons] at hfits
    -- the first member is asked for
    have hm := htest m w members total .refl s hs
    unfold weigh
    cases hrun : test m s with
    | mk passed s' =>
      rw [hrun] at hm
      cases passed with
      | false =>
        have hfails : ¬ p m := fun h => by cases hm.passes_iff.mpr h
        have hrest := ih total s' (by omega)
          (fun m' w' rest t h => htest m' w' rest t (.failed hfails h)) hm.faithful
        obtain ⟨chosen, hsub, hp, hsum⟩ := hrest.counted
        refine ⟨hrest.faithful, hm.keeps.trans hrest.keeps, fun m' w' rest t h => ?_,
          ⟨chosen, hsub.cons _, hp, hsum⟩, fun hreached => ⟨(hrest.reached hreached).1, fun t h => ?_⟩,
          fun hbelow => ⟨.failed hfails (hrest.below hbelow).1, fun chosen' hsub' hp' => ?_⟩⟩
        · cases h with
          | refl => exact hlasting m _ _ hrest.keeps hm.settled
          | failed _ h => exact hrest.settled m' w' rest t h
          | passed hm' => exact absurd hm' hfails
        · cases h with
          | failed _ h => exact (hrest.reached hreached).2 t h
          | passed hm' => exact absurd hm' hfails
        · cases hsub' with
          | cons _ hsub' => exact (hrest.below hbelow).2 chosen' hsub' hp'
          | cons_cons _ hsub' => exact absurd (hp' (m, w) List.mem_cons_self) hfails
      | true =>
        have hpasses : p m := hm.passes_iff.mp rfl
        have hmod : (total + w) % 2 ^ 32 = total + w := Nat.mod_eq_of_lt (by omega)
        dsimp only
        rw [hmod]
        split
        · next hreached =>
          refine ⟨hm.faithful, hm.keeps, fun m' w' rest t h => ?_, ⟨[(m, w)], ?_, ?_, by simp⟩,
            fun _ => ⟨hreached, fun t h => ?_⟩, fun h => absurd h.symm Bool.false_ne_true⟩
          · cases h with
            | refl => exact hm.settled
            | failed hm' => exact absurd hpasses hm'
            | passed _ hbelow => exact absurd hreached (Nat.not_le.mpr hbelow)
          · exact (List.nil_sublist members).cons_cons (m, w)
          · intro m' hm'
            rw [List.mem_singleton] at hm'
            exact hm' ▸ hpasses
          · cases h with
            | failed hm' => exact hm' hpasses
            | passed _ hbelow => exact absurd hreached (Nat.not_le.mpr hbelow)
        · next hbelow =>
          have hbelow' : total + w < threshold := Nat.not_le.mp hbelow
          have hrest := ih (total + w) s' (by omega)
            (fun m' w' rest t h => htest m' w' rest t (.passed hpasses hbelow' h)) hm.faithful
          obtain ⟨chosen, hsub, hp, hsum⟩ := hrest.counted
          refine ⟨hrest.faithful, hm.keeps.trans hrest.keeps, fun m' w' rest t h => ?_,
            ⟨(m, w) :: chosen, hsub.cons_cons _, ?_, ?_⟩,
            fun hreached => ⟨(hrest.reached hreached).1, fun t h => ?_⟩,
            fun hends => ⟨.passed hpasses hbelow' (hrest.below hends).1, fun chosen' hsub' hp' => ?_⟩⟩
          · cases h with
            | refl => exact hlasting m _ _ hrest.keeps hm.settled
            | failed hm' => exact absurd hpasses hm'
            | passed _ _ h => exact hrest.settled m' w' rest t h
          · intro m' hm'
            rcases List.mem_cons.mp hm' with rfl | hm'
            · exact hpasses
            · exact hp m' hm'
          · rw [hsum, List.map_cons, List.sum_cons, Nat.add_assoc]
          · cases h with
            | failed hm' => exact hm' hpasses
            | passed _ _ h => exact (hrest.reached hreached).2 t h
          · have hall := (hrest.below hends).2
            cases hsub' with
            | cons _ hsub' =>
              have hle := hall chosen' hsub' hp'
              omega
            | cons_cons _ hsub' =>
              have hle := hall _ hsub' fun m' hm' => hp' m' (List.mem_cons_of_mem _ hm')
              rw [List.map_cons, List.sum_cons]
              omega

/-! ### The accounts of an authority -/

/-- An account that is known to approve has been settled when it was found. -/
theorem settlesFrom_known {account : ℕ} {s : SignState Key} (hs : Faithful A r levels keys s)
    (hknown : account ∈ s.approvedBy) (steps : ℕ) :
    SettlesFrom A r levels keys (Vouched A.getActive keys ∅ account)
      (AccountSettled A r levels keys steps account) s (true, s) where
  faithful := hs
  keeps := .refl s
  passes_iff := ⟨fun _ => hs.vouched account hknown, fun _ => rfl⟩
  settled := ⟨hs.settled account hknown, fun hunmet => absurd (hs.vouched account hknown) hunmet⟩

/-- An account at the depth limit. Its authority is not looked at, and there is nothing to be found. -/
theorem settles_approves_none {account : ℕ}
    (hbeyond : NotTemp account → ∀ auth, A.getActive account = some auth →
      ¬ Derived A.getActive keys ∅ auth ∧ ∀ s, Settled A r levels keys auth s) :
    Settles A r levels keys (Vouched A.getActive keys ∅ account) (AccountSettled A r levels keys 0 account)
      (approves none account) := by
  intro s hs
  unfold approves
  split
  · next hknown => exact settlesFrom_known hs hknown 0
  · next hnot =>
    have htemp : NotTemp account := fun h => hnot (h ▸ hs.temp)
    refine ⟨hs, .refl s, ⟨fun h => absurd h Bool.false_ne_true, fun hvouched => ?_⟩,
      fun _ auth hactive => (hbeyond htemp auth hactive).2 s,
      fun _ _ _ left hleft => absurd hleft (Nat.not_lt_zero left)⟩
    obtain ⟨auth, hactive, hderived⟩ := (vouched_iff_of_notTemp htemp).mp hvouched
    exact absurd hderived (hbeyond htemp auth hactive).1

/-- What the check of an authority settles. -/
def SettledTo (A : Accounts Key) (r : Required Key) (levels : ℕ) (keys : Finset Key) (steps : ℕ)
    (auth : Authority Key) (s : SignState Key) : Prop :=
  Settled A r levels keys auth s ∧ SettledWithin A keys steps auth s

theorem SettledTo.mono {steps : ℕ} {auth : Authority Key} {s s' : SignState Key}
    (h : SettledTo A r levels keys steps auth s) (hkeeps : KeepsUsed s s') :
    SettledTo A r levels keys steps auth s' := ⟨h.1.mono hkeeps, h.2.mono hkeeps⟩

theorem AccountSettled.of_active {steps account : ℕ} {s : SignState Key}
    (h : ∀ auth, A.getActive account = some auth → SettledTo A r levels keys steps auth s) :
    AccountSettled A r levels keys (steps + 1) account s where
  settled _ auth hactive := (h auth hactive).1
  within _ auth hactive _ hleft n hn := (h auth hactive).2 n (hn.trans (Nat.lt_succ_iff.mp hleft))

/-- An account whose authority is looked at, unless it is known to approve. -/
theorem settles_approves_some {account steps : ℕ} {check : ℕ → SignState Key → Bool × SignState Key}
    (hcheck : NotTemp account → Settles A r levels keys
      (∃ auth, A.getActive account = some auth ∧ Derived A.getActive keys ∅ auth)
      (fun s => ∀ auth, A.getActive account = some auth → SettledTo A r levels keys steps auth s)
      (check account)) :
    Settles A r levels keys (Vouched A.getActive keys ∅ account)
      (AccountSettled A r levels keys (steps + 1) account) (approves (some check) account) := by
  intro s hs
  unfold approves
  split
  · next hknown => exact settlesFrom_known hs hknown (steps + 1)
  · next hnot =>
    have htemp : NotTemp account := fun h => hnot (h ▸ hs.temp)
    have hsettles := hcheck htemp s hs
    have hiff := hsettles.passes_iff.trans (vouched_iff_of_notTemp htemp).symm
    dsimp only
    cases hrun : check account s with
    | mk found s' =>
      rw [hrun] at hsettles hiff
      cases found with
      | false => exact ⟨hsettles.faithful, hsettles.keeps, hiff, .of_active hsettles.settled⟩
      | true =>
        have hs' := hsettles.faithful
        refine ⟨⟨Finset.mem_insert_of_mem hs'.temp, hs'.answers, fun a ha => ?_, fun a ha hnot => ?_,
          hs'.sought⟩, hsettles.keeps, hiff, .of_active hsettles.settled⟩
        · rcases Finset.mem_insert.mp ha with rfl | ha
          · exact hiff.mp rfl
          · exact hs'.vouched a ha
        · rcases Finset.mem_insert.mp ha with rfl | ha
          · exact fun auth hactive => (hsettles.settled auth hactive).1
          · exact hs'.settled a ha hnot

/-- **The body of `check_authority`** settles an authority, if it settles the accounts that are asked for. -/
theorem settles_checkMembers {check : Option (ℕ → SignState Key → Bool × SignState Key)}
    {auth : Authority Key} {depth steps : ℕ} (hfits : auth.Fits) (hsought : r.Sought A keys NotTemp depth auth)
    (haccounts : ∀ account, AsksAccount A.getActive keys auth account →
      Settles A r levels keys (Vouched A.getActive keys ∅ account)
        (AccountSettled A r levels keys steps account) (approves check account)) :
    Settles A r levels keys (Derived A.getActive keys ∅ auth) (SettledTo A r levels keys steps auth)
      (checkMembers check auth) := by
  intro s hs
  have hs₀ : Faithful A r levels keys { s with visited := auth :: s.visited } :=
    ⟨hs.temp, hs.answers, hs.vouched, hs.settled, hs.sought⟩
  unfold Authority.Fits at hfits
  have hsigned := settles_weigh (q := fun k s => k ∈ keys → s.Uses k) auth.weightThreshold
    (fun k s s' hkeeps hk hmem => hkeeps k (hk hmem)) 0 _ (by omega)
    (fun k w rest t hgoes => settles_signedBy ⟨depth, auth, hsought, w, rest, t, hgoes⟩) hs₀
  -- what the keys and the accounts that are asked for settle together
  have hsettled : ∀ {s'}, (∀ k ∈ keys, AsksKey keys auth k → s'.Uses k) →
      (∀ account, AsksAccount A.getActive keys auth account →
        AccountSettled A r levels keys steps account s') → SettledTo A r levels keys steps auth s' := by
    intro s' hkeys haccounts'
    constructor
    · intro n auth' hleads k hk hasks
      cases hleads with
      | refl => exact .inl (hkeys k hk hasks)
      | step hasked hthrough hactive hleads =>
        exact (haccounts' _ hasked).settled hthrough _ hactive _ _ hleads k hk hasks
    · intro n hn auth' hleads k hk hasks
      cases hleads with
      | refl => exact hkeys k hk hasks
      | step hasked hthrough hactive hleads =>
        exact (haccounts' _ hasked).within hthrough _ hactive _ hn _ le_rfl _ hleads k hk hasks
  unfold checkMembers
  cases hweigh : weigh auth.weightThreshold signedBy auth.keyAuths 0
      { s with visited := auth :: s.visited } with
  | mk result s₁ =>
    obtain ⟨reached, total⟩ := result
    rw [hweigh] at hsigned
    obtain ⟨signers, hsigners, hsign, hsum⟩ := hsigned.counted
    have hsum' : total = (signers.map Prod.snd).sum := hsum.trans (Nat.zero_add _)
    have hkeys : ∀ k ∈ keys, AsksKey keys auth k → s₁.Uses k :=
      fun k hk ⟨w, rest, t, hgoes⟩ => hsigned.settled k w rest t hgoes hk
    cases reached with
    | true =>
      obtain ⟨hreached, hends⟩ := hsigned.reached rfl
      have hle : auth.weightThreshold ≤ total := hreached
      refine ⟨hsigned.faithful, hsigned.keeps, ⟨fun _ => ?_, fun _ => rfl⟩, hsettled hkeys ?_⟩
      · exact .intro hsigners (List.nil_sublist _) hsign (by simp) (by simpa [← hsum'] using hle)
      · rintro account ⟨t, hgoes, -⟩
        exact absurd hgoes (hends t)
    | false =>
      obtain ⟨hends, hall⟩ := hsigned.below rfl
      have hall' : ∀ signers' : List (Key × ℕ), signers'.Sublist auth.keyAuths →
          (∀ m ∈ signers', m.1 ∈ keys) → (signers'.map Prod.snd).sum ≤ total :=
        fun signers' hsub hp => (Nat.zero_add _).symm.le.trans (hall signers' hsub hp)
      have htotal : total ≤ (auth.keyAuths.map Prod.snd).sum :=
        hsum'.le.trans ((hsigners.map Prod.snd).sum_le_sum (by simp))
      -- the accounts are asked for from here on
      have hasks : ∀ account w rest t, GoesOn (Vouched A.getActive keys ∅) auth.weightThreshold
          auth.accountAuths total ((account, w) :: rest) t → AsksAccount A.getActive keys auth account :=
        fun account w rest t hgoes => ⟨total, hends, w, rest, t, hgoes⟩
      have happroved := settles_weigh (q := AccountSettled A r levels keys steps) auth.weightThreshold
        (fun account s s' hkeeps h => h.mono hkeeps) total s₁ (by omega)
        (fun account w rest t hgoes => haccounts account (hasks account w rest t hgoes)) hsigned.faithful
      dsimp only
      cases hweigh' : weigh auth.weightThreshold (approves check) auth.accountAuths total s₁ with
      | mk result' s₂ =>
        obtain ⟨reached', total'⟩ := result'
        rw [hweigh'] at happroved
        obtain ⟨approvers, happrovers, hvouched, htotal'⟩ := happroved.counted
        have hderived : auth.weightThreshold ≤ total' → Derived A.getActive keys ∅ auth := by
          intro hle
          refine .intro hsigners happrovers hsign hvouched ?_
          rw [← hsum']
          exact hle.trans (le_of_eq htotal')
        refine ⟨happroved.faithful, hsigned.keeps.trans happroved.keeps, ?_, hsettled
          (fun k hk hasked => happroved.keeps k (hkeys k hk hasked)) ?_⟩
        · cases reached' with
          | true => exact ⟨fun _ => hderived (happroved.reached rfl).1, fun _ => rfl⟩
          | false =>
            have hrest := (happroved.below rfl).2
            rw [Bool.false_or, decide_eq_true_iff]
            refine ⟨hderived, ?_⟩
            rintro ⟨hsigners', happrovers', hsign', hvouched', hweight⟩
            calc auth.weightThreshold ≤ _ := hweight
              _ ≤ total + _ := Nat.add_le_add_right (hall' _ hsigners' hsign') _
              _ ≤ total' := hrest _ happrovers' hvouched'
        · rintro account ⟨t, hgoes, w, rest, t', hgoes'⟩
          obtain rfl := hgoes.total_eq hends
          exact happroved.settled account w rest t' hgoes'

/-! ### The search -/

/-- Beyond the limit there is nothing to settle. -/
theorem settled_beyond (hwithin : r.WithinDepth A levels keys) {depth : ℕ} {auth : Authority Key}
    (hsought : r.Sought A keys NotTemp depth auth) (hdepth : levels < depth) :
    ¬ Derived A.getActive keys ∅ auth ∧ ∀ s, Settled A r levels keys auth s := by
  refine ⟨(hwithin depth auth hsought hdepth).1, fun s n auth' hleads k hk hasks => .inr ?_⟩
  exact (hwithin (depth + n) auth' (hsought.leads hleads) (hdepth.trans_le (Nat.le_add_right _ _))).2 k hk hasks

/-- **The search finds what is sought**, by induction on the levels that are left. -/
theorem settles_checkAuthority (hA : A.Fits) (hwithin : r.WithinDepth A levels keys) :
    ∀ (left depth : ℕ) (o : Option (Authority Key)), depth + left = levels →
      (∀ auth, o = some auth → auth.Fits ∧ r.Sought A keys NotTemp depth auth) →
      Settles A r levels keys (∃ auth, o = some auth ∧ Derived A.getActive keys ∅ auth)
        (fun s => ∀ auth, o = some auth → SettledTo A r levels keys left auth s)
        (checkAuthority A.getActive left o)
  | left, _, none, _, _ => by
    intro s hs
    rw [checkAuthority_none]
    refine ⟨hs, .refl s, ⟨fun h => absurd h Bool.false_ne_true, ?_⟩, fun auth h => by cases h⟩
    rintro ⟨auth, hauth, -⟩
    cases hauth
  | 0, depth, some auth, hlevels, hsought => by
    obtain ⟨hfits, hauth⟩ := hsought auth rfl
    have hcheck : Settles A r levels keys (Derived A.getActive keys ∅ auth) (SettledTo A r levels keys 0 auth)
        (checkMembers none auth) :=
      settles_checkMembers hfits hauth fun account hasks => settles_approves_none fun htemp auth' hactive =>
        settled_beyond hwithin (hauth.member hasks htemp hactive) (by omega)
    intro s hs
    have hsettles := hcheck s hs
    refine ⟨hsettles.faithful, hsettles.keeps, hsettles.passes_iff.trans ?_, fun auth' hauth' =>
      Option.some.inj hauth' ▸ hsettles.settled⟩
    simp
  | left + 1, depth, some auth, hlevels, hsought => by
    obtain ⟨hfits, hauth⟩ := hsought auth rfl
    have hcheck : Settles A r levels keys (Derived A.getActive keys ∅ auth)
        (SettledTo A r levels keys (left + 1) auth)
        (checkMembers (some fun account => checkAuthority A.getActive left (A.getActive account)) auth) :=
      settles_checkMembers hfits hauth fun account hasks => settles_approves_some fun htemp =>
        settles_checkAuthority hA hwithin left (depth + 1) (A.getActive account) (by omega)
          fun auth' hactive => ⟨hA.active account auth' hactive, hauth.member hasks htemp hactive⟩
    intro s hs
    have hsettles := hcheck s hs
    refine ⟨hsettles.faithful, hsettles.keeps, hsettles.passes_iff.trans ?_, fun auth' hauth' =>
      Option.some.inj hauth' ▸ hsettles.settled⟩
    simp

/-- The search in an account that is required as active. -/
theorem settles_checkAccount (hA : A.Fits) (hwithin : r.WithinDepth A levels keys) {id : ℕ}
    (hid : id ∈ r.active) :
    Settles A r levels keys (Vouched A.getActive keys ∅ id) (AccountSettled A r levels keys (levels + 1) id)
      (checkAccount A.getActive levels id) := by
  intro s hs
  unfold checkAccount
  split
  · next hknown => exact settlesFrom_known hs hknown (levels + 1)
  · next hnot =>
    have htemp : NotTemp id := fun h => hnot (h ▸ hs.temp)
    have hsettles := settles_checkAuthority hA hwithin levels 0 (A.getActive id) (Nat.zero_add levels)
      (fun auth hactive => ⟨hA.active id auth hactive, auth, .active hid htemp hactive, .refl⟩) s hs
    exact ⟨hsettles.faithful, hsettles.keeps,
      hsettles.passes_iff.trans (vouched_iff_of_notTemp htemp).symm, .of_active hsettles.settled⟩

end SignState

end FinChain.Protocol
