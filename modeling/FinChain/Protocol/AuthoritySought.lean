import FinChain.Protocol.AuthorityStable

/-!
# What a search asks for

`verify_authority` looks at the members of an authority in their order, until the threshold is reached
(`GoesOn`). With fewer keys it gets further: whatever a search asks for, the search with fewer keys asks for as well,
by way of the same accounts (`AsksKey.anti`, `Sought.anti`).

`Sought` says this for a search that has no depth limit and remembers nothing. The search of the program has
a limit, and skips accounts it has found before. It comes to the same results, and uses the same keys, if there is
nothing to be found beyond the limit (`WithinDepth`): what is sought there cannot be met, and its keys are asked
for within the limit too, by way of accounts that cannot be met and so are never skipped.
-/

namespace FinChain.Protocol

variable {Key : Type}

/-! ### The loop over members -/

/-- A loop over members goes on from some members and a weight to others, without reaching the
threshold. -/
inductive GoesOn {μ : Type} (passes : μ → Prop) (threshold : ℕ) :
    List (μ × ℕ) → ℕ → List (μ × ℕ) → ℕ → Prop
  | refl {members : List (μ × ℕ)} {total : ℕ} : GoesOn passes threshold members total members total
  | failed {m : μ} {w : ℕ} {members rest : List (μ × ℕ)} {total total' : ℕ} (hm : ¬ passes m)
      (h : GoesOn passes threshold members total rest total') :
      GoesOn passes threshold ((m, w) :: members) total rest total'
  | passed {m : μ} {w : ℕ} {members rest : List (μ × ℕ)} {total total' : ℕ} (hm : passes m)
      (hbelow : total + w < threshold) (h : GoesOn passes threshold members (total + w) rest total') :
      GoesOn passes threshold ((m, w) :: members) total rest total'

section Loop

variable {μ : Type} {passes passes' : μ → Prop} {threshold : ℕ}

/-- If fewer members pass, the loop goes at least as far. -/
theorem GoesOn.anti (hpasses : ∀ m, passes' m → passes m) {members rest : List (μ × ℕ)} {total total' : ℕ}
    (h : GoesOn passes threshold members total rest total') : ∀ t ≤ total,
      ∃ t' ≤ total', GoesOn passes' threshold members t rest t' := by
  induction h with
  | refl => exact fun t ht => ⟨t, ht, .refl⟩
  | failed hm _ ih =>
    intro t ht
    obtain ⟨t', ht', h'⟩ := ih t ht
    exact ⟨t', ht', .failed (fun hm' => hm (hpasses _ hm')) h'⟩
  | @passed m w members rest total total' _ hbelow _ ih =>
    intro t ht
    by_cases hm' : passes' m
    · obtain ⟨t', ht', h'⟩ := ih (t + w) (Nat.add_le_add_right ht w)
      exact ⟨t', ht', .passed hm' (lt_of_le_of_lt (Nat.add_le_add_right ht w) hbelow) h'⟩
    · obtain ⟨t', ht', h'⟩ := ih t (ht.trans (Nat.le_add_right total w))
      exact ⟨t', ht', .failed hm' h'⟩

/-- The weight at the end is determined. -/
theorem GoesOn.total_eq {members : List (μ × ℕ)} : ∀ {total t t' : ℕ},
    GoesOn passes threshold members total [] t → GoesOn passes threshold members total [] t' → t = t' := by
  induction members with
  | nil =>
    intro total t t' h h'
    cases h
    cases h'
    rfl
  | cons e members ih =>
    intro total t t' h h'
    cases h with
    | failed hm h =>
      cases h' with
      | failed _ h' => exact ih h h'
      | passed hm' => exact absurd hm' hm
    | passed hm _ h =>
      cases h' with
      | failed hm' => exact absurd hm hm'
      | passed _ _ h' => exact ih h h'

/-- The members that the loop comes to are some of those it started with. -/
theorem GoesOn.suffix {members rest : List (μ × ℕ)} {total total' : ℕ}
    (h : GoesOn passes threshold members total rest total') : rest <:+ members := by
  induction h with
  | refl => exact List.suffix_rfl
  | failed _ _ ih => exact ih.trans (List.suffix_cons _ _)
  | passed _ _ _ ih => exact ih.trans (List.suffix_cons _ _)

end Loop

/-! ### Members that are asked for -/

section Asks

variable (getActive : ℕ → Option (Authority Key)) (keys : Finset Key)

/-- The keys of an authority that are asked for. -/
def AsksKey (auth : Authority Key) (k : Key) : Prop :=
  ∃ w rest total, GoesOn (· ∈ keys) auth.weightThreshold auth.keyAuths 0 ((k, w) :: rest) total

/-- The accounts of an authority that are asked for, after all its keys. -/
def AsksAccount (auth : Authority Key) (account : ℕ) : Prop :=
  ∃ total, GoesOn (· ∈ keys) auth.weightThreshold auth.keyAuths 0 [] total ∧
    ∃ w rest total', GoesOn (Vouched getActive keys ∅) auth.weightThreshold auth.accountAuths total
      ((account, w) :: rest) total'

/-- An authority leads to another one, from member to member, through some kind of accounts. -/
inductive Leads (through : ℕ → Prop) : ℕ → Authority Key → Authority Key → Prop
  | refl {auth : Authority Key} : Leads through 0 auth auth
  | step {n account : ℕ} {auth auth' auth'' : Authority Key} (hasks : AsksAccount getActive keys auth account)
      (hthrough : through account) (hactive : getActive account = some auth')
      (h : Leads through n auth' auth'') : Leads through (n + 1) auth auth''

end Asks

/-- The authorities that a search starts from. Where an account is required as active, its owner authority is looked at
only if the active one is not met. -/
inductive Required.Asked (A : Accounts Key) (keys : Finset Key) (through : ℕ → Prop) (r : Required Key) :
    Authority Key → Prop
  | other {auth : Authority Key} (h : auth ∈ r.other) : Asked A keys through r auth
  | active {id : ℕ} {auth : Authority Key} (hid : id ∈ r.active) (hthrough : through id)
      (hauth : A.getActive id = some auth) : Asked A keys through r auth
  | ownerOfActive {id : ℕ} {auth : Authority Key} (hid : id ∈ r.active)
      (hmissing : ¬ Vouched A.getActive keys ∅ id) (hauth : A.getOwner id = some auth) :
      Asked A keys through r auth
  | owner {id : ℕ} {auth : Authority Key} (hid : id ∈ r.owner) (hauth : A.getOwner id = some auth) :
      Asked A keys through r auth

/-- What is sought at some depth, through some kind of accounts. -/
def Required.Sought (A : Accounts Key) (keys : Finset Key) (through : ℕ → Prop) (r : Required Key) (depth : ℕ)
    (auth : Authority Key) : Prop :=
  ∃ root, r.Asked A keys through root ∧ Leads A.getActive keys through depth root auth

/-- The accounts that have to be looked into: all but the one that needs no signature. -/
def NotTemp (account : ℕ) : Prop := account ≠ tempAccount

/-- The accounts that are looked into whenever they are asked for: they never approve. -/
def Unmet (getActive : ℕ → Option (Authority Key)) (keys : Finset Key) (account : ℕ) : Prop :=
  ¬ Vouched getActive keys ∅ account

/-- A key is sought. -/
def Required.SeeksKey (A : Accounts Key) (keys : Finset Key) (r : Required Key) (k : Key) : Prop :=
  ∃ depth auth, r.Sought A keys NotTemp depth auth ∧ AsksKey keys auth k

/-- A key is sought within the limit, through accounts that are never skipped. -/
def Required.SurelySeeksKey (A : Accounts Key) (levels : ℕ) (keys : Finset Key) (r : Required Key) (k : Key) :
    Prop :=
  ∃ depth ≤ levels, ∃ auth, r.Sought A keys (Unmet A.getActive keys) depth auth ∧ AsksKey keys auth k

/-- Beyond the depth limit nothing is to be found. -/
def Required.WithinDepth (A : Accounts Key) (levels : ℕ) (keys : Finset Key) (r : Required Key) : Prop :=
  ∀ depth auth, r.Sought A keys NotTemp depth auth → levels < depth →
    ¬ Derived A.getActive keys ∅ auth ∧ ∀ k ∈ keys, AsksKey keys auth k → r.SurelySeeksKey A levels keys k

/-! ### Fewer keys -/

section Anti

variable {getActive : ℕ → Option (Authority Key)} {keys keys' : Finset Key} {through through' : ℕ → Prop}

theorem Vouched.mono_keys (hkeys : keys ⊆ keys') {account : ℕ} (h : Vouched getActive keys ∅ account) :
    Vouched getActive keys' ∅ account := by
  obtain ⟨levels, hknown⟩ := vouched_iff_knownWithin.mp h
  exact vouched_iff_knownWithin.mpr ⟨levels, hknown.mono_keys hkeys⟩

theorem AsksKey.anti (hkeys : keys ⊆ keys') {auth : Authority Key} {k : Key} (h : AsksKey keys' auth k) :
    AsksKey keys auth k := by
  obtain ⟨w, rest, total, hgoes⟩ := h
  obtain ⟨t, -, hgoes'⟩ := hgoes.anti (fun _ hm => hkeys hm) 0 le_rfl
  exact ⟨w, rest, t, hgoes'⟩

theorem AsksAccount.mem {auth : Authority Key} {account : ℕ} (h : AsksAccount getActive keys auth account) :
    account ∈ auth.accountAuths.map Prod.fst := by
  obtain ⟨_, -, w, rest, _, hgoes⟩ := h
  exact List.mem_map_of_mem (f := Prod.fst) (hgoes.suffix.subset List.mem_cons_self)

theorem AsksAccount.anti (hkeys : keys ⊆ keys') {auth : Authority Key} {account : ℕ}
    (h : AsksAccount getActive keys' auth account) : AsksAccount getActive keys auth account := by
  obtain ⟨total, hgoes, w, rest, total', hgoes'⟩ := h
  obtain ⟨t, ht, hless⟩ := hgoes.anti (fun _ hm => hkeys hm) 0 le_rfl
  obtain ⟨t', -, hless'⟩ := hgoes'.anti (fun _ => Vouched.mono_keys hkeys) t ht
  exact ⟨t, hless, w, rest, t', hless'⟩

theorem Leads.anti (hkeys : keys ⊆ keys') {n : ℕ} {auth auth' : Authority Key}
    (h : Leads getActive keys' through n auth auth') : Leads getActive keys through n auth auth' := by
  induction h with
  | refl => exact .refl
  | step hasks hthrough hactive _ ih => exact .step (hasks.anti hkeys) hthrough hactive ih

theorem Leads.trans {m n : ℕ} {auth auth' auth'' : Authority Key}
    (h : Leads getActive keys through m auth auth') (h' : Leads getActive keys through n auth' auth'') :
    Leads getActive keys through (m + n) auth auth'' := by
  induction h with
  | refl => exact (Nat.zero_add n).symm ▸ h'
  | @step m _ _ _ _ hasks hthrough hactive _ ih =>
    rw [Nat.succ_add]
    exact .step hasks hthrough hactive (ih h')

variable {A : Accounts Key} {r : Required Key}

/-- **With fewer keys more is sought.** -/
theorem Required.SeeksKey.anti (hkeys : keys ⊆ keys') {k : Key} (h : r.SeeksKey A keys' k) :
    r.SeeksKey A keys k := by
  obtain ⟨depth, auth, ⟨root, hroot, hleads⟩, hasks⟩ := h
  refine ⟨depth, auth, ⟨root, ?_, hleads.anti hkeys⟩, hasks.anti hkeys⟩
  cases hroot with
  | other h => exact .other h
  | active hid hthrough hauth => exact .active hid hthrough hauth
  | ownerOfActive hid hmissing hauth =>
    exact .ownerOfActive hid (fun hmet => hmissing (hmet.mono_keys hkeys)) hauth
  | owner hid hauth => exact .owner hid hauth

/-- A member that is asked for is sought one level deeper. -/
theorem Required.Sought.member {depth account : ℕ} {auth auth' : Authority Key}
    (h : r.Sought A keys through depth auth) (hasks : AsksAccount A.getActive keys auth account)
    (hthrough : through account) (hactive : A.getActive account = some auth') :
    r.Sought A keys through (depth + 1) auth' := by
  obtain ⟨root, hroot, hleads⟩ := h
  exact ⟨root, hroot, hleads.trans (.step hasks hthrough hactive .refl)⟩

/-- What a sought authority leads to is sought. -/
theorem Required.Sought.leads {depth n : ℕ} {auth auth' : Authority Key}
    (h : r.Sought A keys through depth auth) (hleads : Leads A.getActive keys through n auth auth') :
    r.Sought A keys through (depth + n) auth' := by
  obtain ⟨root, hroot, hleads'⟩ := h
  exact ⟨root, hroot, hleads'.trans hleads⟩

end Anti

end FinChain.Protocol
