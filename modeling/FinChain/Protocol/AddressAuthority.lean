import FinChain.Lib.GuardedRuns
import FinChain.Protocol.Authority

/-!
# Authorities with addresses

An authority may also have addresses as members. An address is a hash of a public key, and there are five ways
to make one. `sign_state` finds the key of an address in two maps, which it fills when the first address is
asked for: one for the keys of the signatures, and one for the keys that are available. A key that is available
may become one of the provided ones later, and the maps stay as they are. This does no harm, because such a key is
found in the map of the available ones (`MapsFit`).

If an address is in neither of the maps, `signed_by` goes on to read the entry at the end of the first one, which
is not there. Here the program is undefined from then on. It returns, as it should, if and only if the address
belongs to a provided or an available key (`signedByAddress_of_known`, `signedByAddress_of_unknown`).
-/

namespace FinChain.Protocol

attribute [local instance] isTrans_le antisymm_le

/-- `authority`, with its `address_auths`. -/
structure AddressAuthority (Key Addr : Type) extends Authority Key where
  addressAuths : List (Addr × ℕ)
  addresses_nodup : (addressAuths.map Prod.fst).Nodup

/-- The addresses of public keys. -/
structure AddressForms (Key Addr : Type) where
  /-- `address( pts_address( key, compressed, version ) )`. -/
  ptsAddress : Key → Bool → ℕ → Addr
  /-- `address( key )`. -/
  address : Key → Addr

/-- `sign_state` with the maps for addresses. -/
structure AddressState (Key Addr : Type) where
  signState : SignState Key
  availableAddressSigs : Option (Table Addr Key) := none
  providedAddressSigs : Option (Table Addr Key) := none
  /-- A history variable: the addresses that `signed_by` was asked for. No step reads it. -/
  asked : List Addr := []

/-- Functions of `sign_state`. -/
abbrev AddressM (Key Addr : Type) := MaybeM (AddressState Key Addr)

variable {Key Addr : Type}

/-- The five forms of an address. -/
def AddressForms.forms (F : AddressForms Key Addr) (k : Key) : List Addr :=
  [F.ptsAddress k false 56, F.ptsAddress k true 56, F.ptsAddress k false 0, F.ptsAddress k true 0, F.address k]

variable [DecidableEq Addr]

/-- The addresses of some keys, where a key replaces one before it that has the same address. -/
def AddressForms.addressesOf (F : AddressForms Key Addr) (keys : List Key) : Table Addr Key :=
  keys.foldl (fun t k => (F.forms k).foldl (fun t a => t.insert a k) t) ∅

variable [LinearOrder Key]

namespace AddressState

/-- The keys of `provided_signatures`. -/
def providedKeys (s : AddressState Key Addr) : Finset Key := s.signState.providedSignatures.keys.toFinset

/-- Fill the maps if that has not been done. -/
def fillMaps (F : AddressForms Key Addr) (s : AddressState Key Addr) : AddressState Key Addr :=
  if s.availableAddressSigs.isNone then
    { s with
      availableAddressSigs := some (F.addressesOf (s.signState.availableKeys.sort (· ≤ ·)))
      providedAddressSigs := some (F.addressesOf (s.providedKeys.sort (· ≤ ·))) }
  else s

/-- `provided_signatures[k] = true`. -/
def markUsed (k : Key) (s : AddressState Key Addr) : AddressState Key Addr :=
  { s with signState :=
    { s.signState with providedSignatures := s.signState.providedSignatures.insert k true } }

/-- The state in which an address is looked up. -/
def askFor (F : AddressForms Key Addr) (a : Addr) (s : AddressState Key Addr) : AddressState Key Addr :=
  { s.fillMaps F with asked := a :: s.asked }

/-- `signed_by` of a key. -/
def signedByKey (k : Key) : AddressM Key Addr Bool := fun s =>
  let r := s.signState.signedBy k
  some (r.1, { s with signState := r.2 })

/-- `signed_by` of an address. -/
def signedByAddress (F : AddressForms Key Addr) (a : Addr) : AddressM Key Addr Bool := fun s =>
  let s := s.askFor F a
  match (s.providedAddressSigs.getD ∅).lookup a with
  | some k => some (true, s.markUsed k)
  | none =>
    match (s.availableAddressSigs.getD ∅).lookup a with
    | some k => if k ∈ s.signState.availableKeys then some (true, s.markUsed k) else some (false, s)
    -- `itr->second`, where `itr` is the end of the map
    | none => none

/-! ### `check_authority` -/

/-- The authority that is looked at is noted. -/
def visit (auth : Authority Key) : AddressM Key Addr Unit := fun s =>
  some ((), { s with signState := { s.signState with visited := auth :: s.signState.visited } })

/-- An account has been found to approve. -/
def approve (account : ℕ) : AddressM Key Addr Unit := fun s =>
  some ((), { s with signState := { s.signState with approvedBy := insert account s.signState.approvedBy } })

/-- A loop over members, as `SignState.weigh`. -/
def weigh {μ : Type} (threshold : ℕ) (test : μ → AddressM Key Addr Bool) :
    List (μ × ℕ) → ℕ → AddressM Key Addr (Bool × ℕ)
  | [], total => pure (false, total)
  | (m, w) :: members, total => do
    let passed ← test m
    if passed then
      if threshold ≤ (total + w) % 2 ^ 32 then pure (true, (total + w) % 2 ^ 32)
      else weigh threshold test members ((total + w) % 2 ^ 32)
    else weigh threshold test members total

/-- Whether an account approves, as `SignState.approves`. -/
def approves (check : Option (ℕ → AddressM Key Addr Bool)) (account : ℕ) : AddressM Key Addr Bool := do
  let s ← get
  if account ∈ s.signState.approvedBy then pure true
  else
    match check with
    | none => pure false
    | some check => do
      let passed ← check account
      if passed then do
        approve account
        pure true
      else pure false

/-- The body of `check_authority`, where `ask` is `signed_by` of an address. -/
def checkMembers (ask : Addr → AddressM Key Addr Bool) (check : Option (ℕ → AddressM Key Addr Bool))
    (auth : AddressAuthority Key Addr) : AddressM Key Addr Bool := do
  visit auth.toAuthority
  let (reached, total) ← weigh auth.weightThreshold signedByKey auth.keyAuths 0
  if reached then pure true
  else do
    let (reached, total) ← weigh auth.weightThreshold ask auth.addressAuths total
    if reached then pure true
    else do
      let (reached, total) ← weigh auth.weightThreshold (approves check) auth.accountAuths total
      pure (reached || decide (auth.weightThreshold ≤ total))

/-- `check_authority`, as `SignState.checkAuthority`. -/
def checkAuthority (ask : Addr → AddressM Key Addr Bool) (getActive : ℕ → Option (AddressAuthority Key Addr)) :
    ℕ → Option (AddressAuthority Key Addr) → AddressM Key Addr Bool
  | _, none => pure false
  | 0, some auth => checkMembers ask none auth
  | levels + 1, some auth =>
    checkMembers ask (some fun account => checkAuthority ask getActive levels (getActive account)) auth

/-- `signed_by` of an address, with the answer no where it is undefined. -/
def answered (F : AddressForms Key Addr) (a : Addr) : AddressM Key Addr Bool := fun s =>
  some ((signedByAddress F a s).getD (false, s.askFor F a))

end AddressState

/-! ### The maps -/

omit [LinearOrder Key] in
theorem lookup_foldl_insert (k : Key) (l : List Addr) (t : Table Addr Key) (a : Addr) :
    (l.foldl (fun t a => t.insert a k) t).lookup a = if a ∈ l then some k else t.lookup a := by
  induction l generalizing t with
  | nil => simp
  | cons a' l ih =>
    rw [List.foldl_cons, ih]
    by_cases hmem : a ∈ l
    · rw [if_pos hmem, if_pos (List.mem_cons_of_mem _ hmem)]
    · rw [if_neg hmem]
      by_cases heq : a = a'
      · rw [heq, AList.lookup_insert, if_pos List.mem_cons_self]
      · have hnot : a ∉ a' :: l := by
          rw [List.mem_cons]
          exact not_or.mpr ⟨heq, hmem⟩
        rw [AList.lookup_insert_ne heq, if_neg hnot]

omit [LinearOrder Key] in
/-- What is found in a map is a key with that address. -/
theorem AddressForms.of_lookup {F : AddressForms Key Addr} {keys : List Key} {a : Addr} {k : Key}
    (h : (F.addressesOf keys).lookup a = some k) : k ∈ keys ∧ a ∈ F.forms k := by
  induction keys using List.reverseRec with
  | nil => cases h
  | append_singleton keys k' ih =>
    unfold addressesOf at h
    rw [List.foldl_append, List.foldl_cons, List.foldl_nil, lookup_foldl_insert] at h
    split at h
    · next hform =>
      obtain rfl := Option.some.inj h
      exact ⟨List.mem_append_right _ List.mem_cons_self, hform⟩
    · obtain ⟨hmem, hform⟩ := ih h
      exact ⟨List.mem_append_left _ hmem, hform⟩

omit [LinearOrder Key] in
/-- The addresses of all keys are there. -/
theorem AddressForms.not_mem_of_lookup {F : AddressForms Key Addr} {keys : List Key} {a : Addr}
    (h : (F.addressesOf keys).lookup a = none) : ∀ k ∈ keys, a ∉ F.forms k := by
  induction keys using List.reverseRec with
  | nil => nofun
  | append_singleton keys k' ih =>
    unfold addressesOf at h
    rw [List.foldl_append, List.foldl_cons, List.foldl_nil, lookup_foldl_insert] at h
    split at h
    · cases h
    · next hform =>
      intro k hk
      rcases List.mem_append.mp hk with hk | hk
      · exact ih h k hk
      · rwa [List.mem_singleton.mp hk]

/-! ### What holds of a `sign_state` -/

section Invariant

variable (F : AddressForms Key Addr) (sigs keys : Finset Key)

/-- The address belongs to a provided or an available key. -/
def Known (a : Addr) : Prop := ∃ k ∈ sigs ∪ keys, a ∈ F.forms k

instance (a : Addr) : Decidable (Known F sigs keys a) :=
  inferInstanceAs (Decidable (∃ k ∈ sigs ∪ keys, a ∈ F.forms k))

/-- The maps hold the addresses of the keys that were there when they were filled. Keys that were provided
later are available ones. -/
def MapsFit (s : AddressState Key Addr) : Prop :=
  ∃ provided, sigs ⊆ provided ∧ provided ⊆ sigs ∪ keys ∧
    s.availableAddressSigs = some (F.addressesOf (keys.sort (· ≤ ·))) ∧
    s.providedAddressSigs = some (F.addressesOf (provided.sort (· ≤ ·)))

/-- A `sign_state` for signatures of the keys `sigs`, with the available keys `keys`. -/
structure SignInv (s : AddressState Key Addr) : Prop where
  available : s.signState.availableKeys = keys
  provided : sigs ⊆ s.providedKeys ∧ s.providedKeys ⊆ sigs ∪ keys
  maps : s.availableAddressSigs = none ∨ MapsFit F sigs keys s

end Invariant

section Checks

variable {F : AddressForms Key Addr} {sigs keys : Finset Key} {s s' : AddressState Key Addr} {a : Addr} {k : Key}

omit [DecidableEq Addr] in
theorem AddressState.mem_providedKeys : k ∈ s.providedKeys ↔ k ∈ s.signState.providedSignatures := by
  unfold providedKeys
  rw [List.mem_toFinset]
  exact AList.mem_keys.symm

omit [DecidableEq Addr] in
theorem AddressState.providedKeys_markUsed : (s.markUsed k).providedKeys = insert k s.providedKeys := by
  ext k'
  rw [Finset.mem_insert, mem_providedKeys, mem_providedKeys]
  exact AList.mem_insert _

/-- After the maps have been filled, they fit. -/
theorem SignInv.fillMaps (h : SignInv F sigs keys s) : MapsFit F sigs keys (s.fillMaps F) := by
  unfold AddressState.fillMaps
  split
  · refine ⟨s.providedKeys, h.provided.1, h.provided.2, ?_, rfl⟩
    rw [h.available]
  · next hsome =>
    rcases h.maps with hnone | hfit
    · rw [hnone] at hsome
      exact absurd rfl hsome
    · exact hfit

theorem AddressState.signState_askFor : (s.askFor F a).signState = s.signState := by
  unfold askFor AddressState.fillMaps
  split <;> rfl

theorem SignInv.askFor (h : SignInv F sigs keys s) (a : Addr) : SignInv F sigs keys (s.askFor F a) where
  available := by rw [AddressState.signState_askFor, h.available]
  provided := by
    unfold AddressState.providedKeys
    rw [AddressState.signState_askFor]
    exact h.provided
  maps := .inr h.fillMaps

theorem SignInv.markUsed (h : SignInv F sigs keys s) (hk : k ∈ sigs ∪ keys) :
    SignInv F sigs keys (s.markUsed k) where
  available := h.available
  provided := by
    rw [AddressState.providedKeys_markUsed]
    exact ⟨h.provided.1.trans (Finset.subset_insert _ _), Finset.insert_subset hk h.provided.2⟩
  maps := h.maps

/-- The lookup of an address, in the maps for some of the keys. -/
theorem SignInv.signedByAddress_eq (h : SignInv F sigs keys s) (a : Addr) :
    ∃ provided, sigs ⊆ provided ∧ provided ⊆ sigs ∪ keys ∧ AddressState.signedByAddress F a s =
      match (F.addressesOf (provided.sort (· ≤ ·))).lookup a with
      | some k => some (true, (s.askFor F a).markUsed k)
      | none =>
        match (F.addressesOf (keys.sort (· ≤ ·))).lookup a with
        | some k => some (true, (s.askFor F a).markUsed k)
        | none => none := by
  obtain ⟨provided, hsigs, hknown, havailable, hprovided⟩ := h.fillMaps
  have hkeys : (s.askFor F a).signState.availableKeys = keys := (h.askFor a).available
  have hfirst : (s.askFor F a).providedAddressSigs.getD ∅ = F.addressesOf (provided.sort (· ≤ ·)) := by
    change (s.fillMaps F).providedAddressSigs.getD ∅ = _
    rw [hprovided]
    rfl
  have hsecond : (s.askFor F a).availableAddressSigs.getD ∅ = F.addressesOf (keys.sort (· ≤ ·)) := by
    change (s.fillMaps F).availableAddressSigs.getD ∅ = _
    rw [havailable]
    rfl
  refine ⟨provided, hsigs, hknown, ?_⟩
  unfold AddressState.signedByAddress
  dsimp only
  rw [hfirst, hsecond, hkeys]
  cases (F.addressesOf (provided.sort (· ≤ ·))).lookup a with
  | some k => rfl
  | none =>
    cases hlookup : (F.addressesOf (keys.sort (· ≤ ·))).lookup a with
    | some k => exact if_pos ((Finset.mem_sort _).mp (F.of_lookup hlookup).1)
    | none => rfl

/-- **An address of a key that is known** is found, and a key with that address is marked. -/
theorem signedByAddress_of_known (h : SignInv F sigs keys s) (ha : Known F sigs keys a) :
    ∃ k ∈ sigs ∪ keys, a ∈ F.forms k ∧
      AddressState.signedByAddress F a s = some (true, (s.askFor F a).markUsed k) := by
  obtain ⟨provided, hsigs, hknown, heq⟩ := h.signedByAddress_eq a
  rw [heq]
  cases hlookup : (F.addressesOf (provided.sort (· ≤ ·))).lookup a with
  | some k =>
    obtain ⟨hk, hform⟩ := F.of_lookup hlookup
    exact ⟨k, hknown ((Finset.mem_sort _).mp hk), hform, rfl⟩
  | none =>
    cases hlookup' : (F.addressesOf (keys.sort (· ≤ ·))).lookup a with
    | some k =>
      obtain ⟨hk, hform⟩ := F.of_lookup hlookup'
      exact ⟨k, Finset.mem_union_right _ ((Finset.mem_sort _).mp hk), hform, rfl⟩
    | none =>
      -- the key was there when the maps were filled, or it is available
      obtain ⟨k, hk, hform⟩ := ha
      rcases Finset.mem_union.mp hk with hk | hk
      · exact absurd hform (F.not_mem_of_lookup hlookup k ((Finset.mem_sort _).mpr (hsigs hk)))
      · exact absurd hform (F.not_mem_of_lookup hlookup' k ((Finset.mem_sort _).mpr hk))

/-- **An address of no known key**: an entry is read that is not there. -/
theorem signedByAddress_of_unknown (h : SignInv F sigs keys s) (ha : ¬ Known F sigs keys a) :
    AddressState.signedByAddress F a s = none := by
  obtain ⟨provided, -, hknown, heq⟩ := h.signedByAddress_eq a
  rw [heq]
  cases hlookup : (F.addressesOf (provided.sort (· ≤ ·))).lookup a with
  | some k =>
    obtain ⟨hk, hform⟩ := F.of_lookup hlookup
    exact absurd ⟨k, hknown ((Finset.mem_sort _).mp hk), hform⟩ ha
  | none =>
    cases hlookup' : (F.addressesOf (keys.sort (· ≤ ·))).lookup a with
    | some k =>
      obtain ⟨hk, hform⟩ := F.of_lookup hlookup'
      exact absurd ⟨k, Finset.mem_union_right _ ((Finset.mem_sort _).mp hk), hform⟩ ha
    | none => rfl

end Checks

end FinChain.Protocol
