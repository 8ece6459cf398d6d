import FinChain.Db.MemberMap
import FinChain.Protocol.Authority

/-!
# Who names an account, a key or an address

`account_member_index` finds the accounts that name an account, a key or an address in their owner or
active authority, or as their memo key. A key that occurs more than once counts once, since the members are
collected in sets.

Before an account is modified its members are kept, and afterwards they are compared with those it has then:
what has gone is taken out, what has come is put in. `undo` modifies accounts in the same way, and since
accounts are only ever removed when their creation is undone, it has nothing to put back.
-/

namespace FinChain.Chain

open MemberMap

variable {Key Address V : Type} [LinearOrder Key] [LinearOrder Address]

/-- `authority`, with its addresses. -/
structure AccountAuthority (Key Address : Type) extends Protocol.Authority Key where
  addressAuths : List (Address × ℕ)

/-- `account_object`, as far as the index reads it. -/
structure AccountMembers (Key Address : Type) where
  owner : AccountAuthority Key Address
  active : AccountAuthority Key Address
  memoKey : Key

namespace AccountMembers

/-- `get_account_members`. -/
def getAccountMembers (a : AccountMembers Key Address) : Finset ℕ :=
  (a.owner.accountAuths.map Prod.fst).toFinset ∪ (a.active.accountAuths.map Prod.fst).toFinset

/-- `get_key_members`. -/
def getKeyMembers (a : AccountMembers Key Address) : Finset Key :=
  insert a.memoKey
    ((a.owner.keyAuths.map Prod.fst).toFinset ∪ (a.active.keyAuths.map Prod.fst).toFinset)

/-- `get_address_members`. The memo key is converted to its address. -/
def getAddressMembers (address : Key → Address) (a : AccountMembers Key Address) : Finset Address :=
  insert (address a.memoKey)
    ((a.owner.addressAuths.map Prod.fst).toFinset ∪ (a.active.addressAuths.map Prod.fst).toFinset)

end AccountMembers

/-- `account_member_index`. -/
structure AccountMemberIndex (Key Address : Type) where
  accountToAccountMemberships : MemberMap ℕ := ∅
  accountToKeyMemberships : MemberMap Key := ∅
  accountToAddressMemberships : MemberMap Address := ∅
  beforeAccountMembers : Finset ℕ := ∅
  beforeKeyMembers : Finset Key := ∅
  beforeAddressMembers : Finset Address := ∅

namespace AccountMemberIndex

/-- The part of `object_modified` about one of the maps: the differences of the two sets of members are
taken out and put in. -/
def exchange {κ : Type} [LinearOrder κ] (before after : Finset κ) (n : ℕ) (t : MemberMap κ) :
    MemberMap κ :=
  addAll (after \ before) n (dropAll (before \ after) n t)

variable (address : Key → Address)

def objectInserted (n : ℕ) (a : AccountMembers Key Address) (s : AccountMemberIndex Key Address) :
    AccountMemberIndex Key Address :=
  { s with
    accountToAccountMemberships := addAll a.getAccountMembers n s.accountToAccountMemberships
    accountToKeyMemberships := addAll a.getKeyMembers n s.accountToKeyMemberships
    accountToAddressMemberships :=
      addAll (a.getAddressMembers address) n s.accountToAddressMemberships }

def objectRemoved (n : ℕ) (a : AccountMembers Key Address) (s : AccountMemberIndex Key Address) :
    AccountMemberIndex Key Address :=
  { s with
    accountToKeyMemberships := dropAll a.getKeyMembers n s.accountToKeyMemberships
    accountToAddressMemberships :=
      dropAll (a.getAddressMembers address) n s.accountToAddressMemberships
    accountToAccountMemberships := dropAll a.getAccountMembers n s.accountToAccountMemberships }

def aboutToModify (a : AccountMembers Key Address) (s : AccountMemberIndex Key Address) :
    AccountMemberIndex Key Address :=
  { s with
    beforeKeyMembers := a.getKeyMembers
    beforeAddressMembers := a.getAddressMembers address
    beforeAccountMembers := a.getAccountMembers }

def objectModified (n : ℕ) (a : AccountMembers Key Address) (s : AccountMemberIndex Key Address) :
    AccountMemberIndex Key Address :=
  { s with
    accountToAccountMemberships :=
      exchange s.beforeAccountMembers a.getAccountMembers n s.accountToAccountMemberships
    accountToKeyMemberships :=
      exchange s.beforeKeyMembers a.getKeyMembers n s.accountToKeyMemberships
    accountToAddressMemberships :=
      exchange s.beforeAddressMembers (a.getAddressMembers address) n s.accountToAddressMemberships }

end AccountMemberIndex

/-- The index of accounts. -/
def accountKey : IndexKey := ⟨1, 2⟩

/-- `account_member_index` on the accounts of a database. The objects of the database are cast to accounts
when the index is called. -/
def accountMemberIndex (address : Key → Address) (cast : V → AccountMembers Key Address) :
    SecondaryIndex V (AccountMemberIndex Key Address) where
  key := accountKey
  objectInserted n v := AccountMemberIndex.objectInserted address n (cast v)
  objectRemoved n v := AccountMemberIndex.objectRemoved address n (cast v)
  aboutToModify _ v := AccountMemberIndex.aboutToModify address (cast v)
  objectModified n v := AccountMemberIndex.objectModified address n (cast v)

/-- The three maps are exact. -/
structure AccountMemberIndex.Exact (address : Key → Address) (cast : V → AccountMembers Key Address)
    (accounts : ℕ → Option V) (s : AccountMemberIndex Key Address) : Prop where
  account : MemberMap.Exact (fun v => (cast v).getAccountMembers) accounts s.accountToAccountMemberships
  key : MemberMap.Exact (fun v => (cast v).getKeyMembers) accounts s.accountToKeyMemberships
  address : MemberMap.Exact (fun v => (cast v).getAddressMembers address) accounts
    s.accountToAddressMemberships

section Callbacks

variable {κ : Type} [LinearOrder κ] {members : V → Finset κ} {objects : ℕ → Option V}
  {t : MemberMap κ} {n : ℕ} {v v' : V}

theorem exact_addAll (h : MemberMap.Exact members objects t) (hn : objects n = none) :
    MemberMap.Exact members (Function.update objects n (some v)) (addAll (members v) n t) :=
  h.insert hn fun a m => mem_ids_addAll _ n t a m

theorem exact_dropAll (h : MemberMap.Exact members objects t) (hn : objects n = some v) :
    MemberMap.Exact members (Function.update objects n none) (dropAll (members v) n t) :=
  h.remove hn fun a m => mem_ids_dropAll _ n t a m

theorem exact_exchange (h : MemberMap.Exact members objects t) (hn : objects n = some v) :
    MemberMap.Exact members (Function.update objects n (some v'))
      (AccountMemberIndex.exchange (members v) (members v') n t) := by
  refine h.modify hn fun a m => ?_
  unfold AccountMemberIndex.exchange
  rw [mem_ids_addAll, mem_ids_dropAll]

end Callbacks

/-- **The callbacks keep the maps exact**, whatever an account is modified to. -/
theorem accountMemberIndex_tracks (address : Key → Address) (cast : V → AccountMembers Key Address) :
    (accountMemberIndex address cast).Tracks (AccountMemberIndex.Exact address cast)
      (fun _ _ => True) fun _ => False where
  inserted h hn :=
    ⟨exact_addAll h.account hn, exact_addAll h.key hn, exact_addAll h.address hn⟩
  removed h hn :=
    ⟨exact_dropAll h.account hn, exact_dropAll h.key hn, exact_dropAll h.address hn⟩
  modified h hn _ :=
    ⟨exact_exchange h.account hn, exact_exchange h.key hn, exact_exchange h.address hn⟩
  putBack _ _ hfalse := hfalse.elim

/-- **The accounts that name an account, a key or an address are found exactly**, after every run in which
accounts are created and modified and any of it is undone. -/
theorem account_members_exact (address : Key → Address) (cast : V → AccountMembers Key Address)
    {maxSize : ℕ} {l : List (DbCall V)} {y : IndexedDatabase V (AccountMemberIndex Key Address)}
    (hrun : (IndexedDatabase.empty maxSize {}).run (accountMemberIndex address cast) l = .ok y)
    (hl : ∀ id, DbCall.remove id ∈ l → id.index ≠ accountKey) :
    y.secondary.Exact address cast fun n => y.db.store.objects ⟨accountKey, n⟩ := by
  have hempty : (accountMemberIndex address cast).Holds (AccountMemberIndex.Exact address cast)
      (IndexedDatabase.empty maxSize {}).indexed :=
    ⟨exact_empty, exact_empty, exact_empty⟩
  refine IndexedDatabase.run_holds_of_noneRemoved (accountMemberIndex_tracks address cast) hempty ?_
    hl hrun
  exact fun u hu => absurd hu List.not_mem_nil

/-- An authority with one key, for the example. -/
private def withKey (key : ℕ) : AccountAuthority ℕ ℕ where
  weightThreshold := 1
  accountAuths := []
  keyAuths := [(key, 1)]
  addressAuths := []
  accounts_nodup := by decide
  keys_nodup := List.nodup_singleton key

/-- Two accounts with a key in common. The first one loses it in its active authority, but has it as its memo
key, and then loses that too, which is undone. -/
private def twoAccounts : List (DbCall (AccountMembers ℕ ℕ)) :=
  [.startUndoSession, .create accountKey fun _ => ⟨withKey 1, withKey 7, 7⟩,
    .create accountKey fun _ => ⟨withKey 2, withKey 7, 2⟩,
    .modify ⟨accountKey, 0⟩ fun a => { a with active := withKey 3 },
    .startUndoSession, .modify ⟨accountKey, 0⟩ fun a => { a with memoKey := 3 }, .undo]

theorem account_members_exact_two :
    ∃ y : IndexedDatabase (AccountMembers ℕ ℕ) (AccountMemberIndex ℕ ℕ),
      y.secondary.Exact (· + 100) id fun n => y.db.store.objects ⟨accountKey, n⟩ := by
  obtain ⟨y, hrun⟩ : ∃ y, (IndexedDatabase.empty 10 {}).run (accountMemberIndex (· + 100) id)
      twoAccounts = .ok y := ⟨_, rfl⟩
  refine ⟨y, account_members_exact (· + 100) id hrun ?_⟩
  intro id hid
  simp [twoAccounts] at hid

end FinChain.Chain
