import FinChain.Protocol.AuthorityDepth

/-!
# What the search looks at

From the required authorities the search goes down to the active authorities of members, so many levels
and no further (`LookedAt`). The other accounts might as well not exist: a search in the accounts that it
looks into (`seenActive`) is the same search (`checkAuthority_seen`).

So whatever a search finds is derived from the accounts it looks into (`derivedSeen_of_checkAuthority`).
This is the converse of completeness as far as there is one. An account that is looked into once, with
many levels left, is remembered wherever it is met again; `Derived` from the accounts that are looked
into allows for that, and `KnownWithin` does not.
-/

namespace FinChain.Protocol

open SignState

variable {Key : Type}

/-- The authorities that are looked at, and the levels that are left below each. -/
inductive LookedAt (getActive : ℕ → Option (Authority Key)) (roots : Authority Key → Prop) (depth : ℕ) :
    ℕ → Authority Key → Prop
  | root {auth : Authority Key} (h : roots auth) : LookedAt getActive roots depth depth auth
  | member {levels account : ℕ} {auth auth' : Authority Key}
      (h : LookedAt getActive roots depth (levels + 1) auth)
      (hm : account ∈ auth.accountAuths.map Prod.fst) (hactive : getActive account = some auth') :
      LookedAt getActive roots depth levels auth'

/-- The account is a member of an authority that has levels left below it. -/
def LooksInto (getActive : ℕ → Option (Authority Key)) (roots : Authority Key → Prop) (depth account : ℕ) :
    Prop :=
  ∃ levels auth, LookedAt getActive roots depth (levels + 1) auth ∧
    account ∈ auth.accountAuths.map Prod.fst

open Classical in
/-- The active authorities of the accounts that are looked into. -/
noncomputable def seenActive (getActive : ℕ → Option (Authority Key)) (roots : Authority Key → Prop)
    (depth account : ℕ) : Option (Authority Key) :=
  if LooksInto getActive roots depth account then getActive account else none

section Seen

variable {getActive : ℕ → Option (Authority Key)} {roots : Authority Key → Prop} {depth : ℕ}

theorem seenActive_of_looksInto {account : ℕ} (h : LooksInto getActive roots depth account) :
    seenActive getActive roots depth account = getActive account := by
  unfold seenActive
  exact if_pos h

theorem active_of_seenActive {account : ℕ} {auth : Authority Key}
    (h : seenActive getActive roots depth account = some auth) : getActive account = some auth := by
  unfold seenActive at h
  split at h
  · exact h
  · cases h

theorem LookedAt.le {levels : ℕ} {auth : Authority Key}
    (h : LookedAt getActive roots depth levels auth) : levels ≤ depth := by
  induction h with
  | root _ => exact le_rfl
  | member _ _ _ ih => exact (Nat.le_succ _).trans ih

/-- Without levels no account is looked into. -/
theorem seenActive_zero (account : ℕ) : seenActive getActive roots 0 account = none := by
  unfold seenActive
  refine if_neg ?_
  rintro ⟨levels, auth, h, -⟩
  exact absurd h.le (Nat.not_succ_le_zero levels)

end Seen

namespace SignState

/-! ### The same search -/

theorem weigh_congr {μ : Type} {threshold : ℕ} {test test' : μ → SignState Key → Bool × SignState Key}
    {members : List (μ × ℕ)} (h : ∀ m ∈ members, test m.1 = test' m.1) : ∀ (total : ℕ) (s : SignState Key),
      weigh threshold test members total s = weigh threshold test' members total s := by
  induction members with
  | nil => exact fun _ _ => rfl
  | cons e members ih =>
    intro total s
    obtain ⟨m, w⟩ := e
    have hm : test m = test' m := h (m, w) List.mem_cons_self
    have hrest := ih fun m' hm' => h m' (List.mem_cons_of_mem _ hm')
    unfold weigh
    rw [hm]
    cases test' m s with
    | mk passed s' =>
      cases passed with
      | false => exact hrest total s'
      | true =>
        dsimp only
        rw [hrest]

variable [LinearOrder Key] {getActive : ℕ → Option (Authority Key)} {roots : Authority Key → Prop}
  {depth : ℕ}

theorem checkMembers_congr {check check' : ℕ → SignState Key → Bool × SignState Key} {auth : Authority Key}
    (h : ∀ a ∈ auth.accountAuths.map Prod.fst, check a = check' a) :
    checkMembers (some check) auth = checkMembers (some check') auth := by
  have hmember : ∀ m ∈ auth.accountAuths, approves (some check) m.1 = approves (some check') m.1 := by
    intro m hm
    funext s
    unfold approves
    dsimp only
    rw [h m.1 (List.mem_map_of_mem hm)]
  funext s
  unfold checkMembers
  split
  · rfl
  · rw [weigh_congr hmember]

/-- **A search in the accounts it looks into** is the same search. -/
theorem checkAuthority_seen : ∀ (levels : ℕ) {o : Option (Authority Key)},
    (∀ auth, o = some auth → LookedAt getActive roots depth levels auth) →
      checkAuthority getActive levels o = checkAuthority (seenActive getActive roots depth) levels o
  | levels, none, _ => by
    funext s
    rw [checkAuthority_none, checkAuthority_none]
  | 0, some _, _ => rfl
  | levels + 1, some auth, h => by
    have hauth := h auth rfl
    change checkMembers _ auth = checkMembers _ auth
    refine checkMembers_congr fun account haccount => ?_
    rw [seenActive_of_looksInto ⟨levels, auth, hauth, haccount⟩]
    exact checkAuthority_seen levels fun auth' hactive => .member hauth haccount hactive

/-- What the search has found is derived from the accounts it looks into. -/
theorem derivedSeen_of_checkAuthority {keys : Finset Key} {approved : Finset ℕ} {levels : ℕ}
    {o : Option (Authority Key)} (h : ∀ auth, o = some auth → LookedAt getActive roots depth levels auth)
    {s : SignState Key}
    (hs : Justified (seenActive getActive roots depth) keys approved (fun _ => True) s) :
    Justified (seenActive getActive roots depth) keys approved (fun _ => True)
        (checkAuthority getActive levels o s).2 ∧
      ((checkAuthority getActive levels o s).1 = true →
        ∃ auth, o = some auth ∧ Derived (seenActive getActive roots depth) keys approved auth) := by
  rw [checkAuthority_seen levels h]
  have hspec := checkAuthority_spec levels o s (fun _ _ => .root trivial) hs
  exact ⟨hspec.1, hspec.2.2⟩

end SignState

end FinChain.Protocol
