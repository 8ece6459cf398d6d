import FinChain.Lib.Exec
import FinChain.Lib.Table
import FinChain.Lib.SortedLists
import Mathlib.Data.Finset.Sort

/-!
# Authorities and signatures

`verify_authority` decides whether the signatures of a transaction are enough for its operations.
An account is controlled by an authority: keys and other accounts with weights, and the weight that
has to be reached. Accounts may name each other in circles; the search goes from an authority to the
active authorities of its members, up to a limit on the depth.

All requirements of a transaction are checked with one `sign_state`. It remembers which signatures
were used, and which accounts have been found to approve, so that they are not looked at again.
-/

namespace FinChain.Protocol

attribute [local instance] isTrans_le antisymm_le

open Exec

/-- `GRAPHENE_COMMITTEE_ACCOUNT`. -/
def committeeAccount : ℕ := 0

/-- `GRAPHENE_TEMP_ACCOUNT`. -/
def tempAccount : ℕ := 4

/-- `authority`, without `address_auths`. The members are given with their weights, in the order of
the maps. -/
structure Authority (Key : Type) where
  weightThreshold : ℕ
  accountAuths : List (ℕ × ℕ)
  keyAuths : List (Key × ℕ)
  accounts_nodup : (accountAuths.map Prod.fst).Nodup
  keys_nodup : (keyAuths.map Prod.fst).Nodup

theorem Authority.nodup_single {κ : Type} (k : κ) : ([(k, 1)].map Prod.fst).Nodup := List.nodup_singleton k

/-- `sign_state`. -/
structure SignState (Key : Type) where
  /-- The signatures, and which of them have been used. -/
  providedSignatures : Table Key Bool
  approvedBy : Finset ℕ
  availableKeys : Finset Key := ∅
  /-- A history variable: the authorities that were looked at. No step reads it. -/
  visited : List (Authority Key) := []

variable {Key : Type} [LinearOrder Key]

namespace SignState

/-- The constructor of `sign_state`. -/
def init (sigs : Finset Key) (approvals : Finset ℕ) : SignState Key where
  providedSignatures := (sigs.sort (· ≤ ·)).foldl (fun t k => t.insert k false) ∅
  approvedBy := insert tempAccount approvals

/-- `signed_by`. -/
def signedBy (k : Key) (s : SignState Key) : Bool × SignState Key :=
  if (s.providedSignatures.lookup k).isSome ∨ k ∈ s.availableKeys then
    (true, { s with providedSignatures := s.providedSignatures.insert k true })
  else (false, s)

/-- A loop over members of an authority: the weights of those that pass the test are added up
(`uint32_t`) until the threshold is reached. Whether it was, and the sum. -/
def weigh {μ : Type} (threshold : ℕ) (test : μ → SignState Key → Bool × SignState Key) :
    List (μ × ℕ) → ℕ → SignState Key → (Bool × ℕ) × SignState Key
  | [], total, s => ((false, total), s)
  | (m, w) :: members, total, s =>
    match test m s with
    | (false, s') => weigh threshold test members total s'
    | (true, s') =>
      if threshold ≤ (total + w) % 2 ^ 32 then ((true, (total + w) % 2 ^ 32), s')
      else weigh threshold test members ((total + w) % 2 ^ 32) s'

/-- Whether an account approves: it is known to, or else its active authority is checked, if the
search may go deeper. -/
def approves (check : Option (ℕ → SignState Key → Bool × SignState Key)) (account : ℕ)
    (s : SignState Key) : Bool × SignState Key :=
  if account ∈ s.approvedBy then (true, s)
  else
    match check with
    | none => (false, s)
    | some check =>
      match check account s with
      | (true, s') => (true, { s' with approvedBy := insert account s'.approvedBy })
      | (false, s') => (false, s')

/-- The body of `check_authority`. -/
def checkMembers (check : Option (ℕ → SignState Key → Bool × SignState Key))
    (auth : Authority Key) (s : SignState Key) : Bool × SignState Key :=
  match weigh auth.weightThreshold signedBy auth.keyAuths 0 { s with visited := auth :: s.visited } with
  | ((true, _), s') => (true, s')
  | ((false, total), s') =>
    match weigh auth.weightThreshold (approves check) auth.accountAuths total s' with
    | ((reached, total'), s'') => (reached || decide (auth.weightThreshold ≤ total'), s'')

/-- `check_authority` of an authority, which may be a null pointer. The first argument is the number
of levels the search may still go down, `max_recursion - depth`. -/
def checkAuthority (getActive : ℕ → Option (Authority Key)) :
    ℕ → Option (Authority Key) → SignState Key → Bool × SignState Key
  | _, none, s => (false, s)
  | 0, some auth, s => checkMembers none auth s
  | levels + 1, some auth, s =>
    checkMembers (some fun account => checkAuthority getActive levels (getActive account)) auth s

/-- `check_authority` of an account. -/
def checkAccount (getActive : ℕ → Option (Authority Key)) (levels : ℕ) (id : ℕ)
    (s : SignState Key) : Bool × SignState Key :=
  if id ∈ s.approvedBy then (true, s) else checkAuthority getActive levels (getActive id) s

/-- `remove_unused_signatures`; whether there were any. -/
def removeUnusedSignatures (s : SignState Key) : Bool :=
  s.providedSignatures.entries.any fun e => !e.2

end SignState

/-! ### Requirements -/

/-- What `operation_get_required_authorities` collects. -/
structure Required (Key : Type) where
  active : Finset ℕ := ∅
  owner : Finset ℕ := ∅
  other : List (Authority Key) := []

/-- The requirements of one operation are added. -/
def Required.add (r r' : Required Key) : Required Key where
  active := r.active ∪ r'.active
  owner := r.owner ∪ r'.owner
  other := r.other ++ r'.other

/-- The exceptions of `verify_authority`. -/
inductive AuthorityError
  | invalidCommitteeApproval
  | txMissingOtherAuth
  | txMissingActiveAuth (id : ℕ)
  | txMissingOwnerAuth (id : ℕ)
  | txIrrelevantSig
  deriving DecidableEq, Repr

/-- Checks on a `sign_state`. -/
abbrev SignM (Key : Type) := EStateM AuthorityError (SignState Key)

/-- A check that has to succeed. -/
def demand (e : AuthorityError) (check : SignState Key → Bool × SignState Key) : SignM Key Unit :=
  fun s =>
    match check s with
    | (true, s') => .ok () s'
    | (false, s') => .error e s'

/-- `a || b`. -/
def orElse (a b : SignState Key → Bool × SignState Key) (s : SignState Key) : Bool × SignState Key :=
  match a s with
  | (true, s') => (true, s')
  | (false, s') => b s'

/-- The accounts and approvals a transaction is checked against. -/
structure Accounts (Key : Type) where
  getActive : ℕ → Option (Authority Key)
  getOwner : ℕ → Option (Authority Key)
  activeApprovals : Finset ℕ
  ownerApprovals : Finset ℕ

/-- The three loops of `verify_authority`. -/
def checkRequired (A : Accounts Key) (maxRecursionDepth : ℕ) (r : Required Key) : SignM Key Unit := do
  r.other.forM fun auth =>
    demand .txMissingOtherAuth (SignState.checkAuthority A.getActive maxRecursionDepth (some auth))
  (r.active.sort (· ≤ ·)).forM fun id =>
    demand (.txMissingActiveAuth id)
      (orElse (SignState.checkAccount A.getActive maxRecursionDepth id)
        (SignState.checkAuthority A.getActive maxRecursionDepth (A.getOwner id)))
  (r.owner.sort (· ≤ ·)).forM fun id =>
    if id ∈ A.ownerApprovals then pure ()
    else demand (.txMissingOwnerAuth id)
      (SignState.checkAuthority A.getActive maxRecursionDepth (A.getOwner id))

/-- `verify_authority`; the `sign_state` at its end. -/
def verifyAuthority {Op : Type} (requiredAuthorities : Op → Required Key) (A : Accounts Key)
    (maxRecursionDepth : ℕ) (allowCommittee : Bool) (ops : List Op) (sigs : Finset Key) :
    Except AuthorityError (SignState Key) :=
  let r := ops.foldl (fun r op => r.add (requiredAuthorities op)) {}
  if allowCommittee = false ∧ committeeAccount ∈ r.active then .error .invalidCommitteeApproval
  else
    match checkRequired A maxRecursionDepth r
        (SignState.init sigs (A.activeApprovals ∪ A.ownerApprovals)) with
    | .error e _ => .error e
    | .ok _ s => if s.removeUnusedSignatures then .error .txIrrelevantSig else .ok s

end FinChain.Protocol
