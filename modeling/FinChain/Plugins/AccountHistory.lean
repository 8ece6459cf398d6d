import FinChain.Lib.Exec
import FinChain.Lib.Table
import Mathlib.Data.List.Sort

/-!
# The account history plugin

After each block, `update_account_histories` goes through the operations that were applied and notes
them for the accounts they concern. An account has a linked list of
`account_transaction_history_object`s: the newest is found through the statistics of the account, and
each points to the one before it. The entries are numbered, and two counters in the statistics say up
to which number there have been entries and up to which they were removed again. With
`partial_operations` an operation is kept only as long as some entry refers to it.

Which accounts an operation concerns is decided by visitors over all operation types and taken as
given here (`impacted`); sets of accounts are `flat_set`s, so no account comes up twice. An id is the instance
number of the object. The id of the first entry is therefore also what stands for no entry,
`account_transaction_history_id_type()`. Sequence numbers and counters are natural numbers; an account
stays far below `2 ^ 32` operations. The objects the plugin counts fees with are left out.
-/

namespace FinChain.Plugins

open Exec

/-- What the history of an account needs of `account_statistics_object`. -/
structure AccountStatistics where
  mostRecentOp : ℕ := 0
  totalOps : ℕ := 0
  removedOps : ℕ := 0
  deriving DecidableEq, Repr

/-- `account_transaction_history_object`. -/
structure AccountTransactionHistory where
  account : ℕ
  operationId : ℕ
  sequence : ℕ
  next : ℕ
  deriving DecidableEq, Repr

/-- The configuration of the plugin, and the accounts that an operation concerns. `H` is what
`operation_history_object` has besides its id. -/
structure AccountHistoryPlugin (H : Type) where
  /-- No account here means all of them. -/
  trackedAccounts : List ℕ := []
  tracked_nodup : trackedAccounts.Nodup
  fullHistoryAccounts : List ℕ := []
  partialOperations : Bool := false
  maxOpsPerAccount : ℕ := 2 ^ 32 - 1
  impacted : H → List ℕ
  impacted_nodup : ∀ h, (impacted h).Nodup

/-- The part of the database the plugin works on. -/
structure HistoryDatabase (H : Type) where
  /-- The accounts that exist. -/
  accounts : List ℕ := []
  statistics : ℕ → AccountStatistics := fun _ => {}
  histories : Index AccountTransactionHistory := .empty
  operations : Index H := .empty

/-- The exceptions of the object database. -/
inductive HistoryError
  | noSuchAccount
  | noSuchOperation
  /-- "Could not create object! Most likely a uniqueness constraint is violated." -/
  | notUnique
  deriving DecidableEq, Repr

variable {H : Type}

abbrev HistoryM (H : Type) := EStateM HistoryError (HistoryDatabase H)

/-! ### The index `by_seq` -/

/-- The order of `by_seq`: by account, and then by sequence number. -/
def AccountTransactionHistory.SeqLE (e f : AccountTransactionHistory) : Prop :=
  e.account < f.account ∨ e.account = f.account ∧ e.sequence ≤ f.sequence

instance (e f : ℕ × AccountTransactionHistory) : Decidable (e.2.SeqLE f.2) :=
  inferInstanceAs (Decidable (_ ∨ _))

/-- The entries in the order of `by_seq`. -/
def bySeq (x : Index AccountTransactionHistory) : List (ℕ × AccountTransactionHistory) :=
  x.entries.insertionSort fun e f => e.2.SeqLE f.2

/-- The entries from `lower_bound( boost::make_tuple( account_id, 0 ) )` on. -/
def lowerBound (x : Index AccountTransactionHistory) (accountId : ℕ) :
    List (ℕ × AccountTransactionHistory) :=
  (bySeq x).dropWhile fun e => e.2.account < accountId

/-! ### Histories -/

namespace HistoryDatabase

def setStatistics (s : HistoryDatabase H) (accountId : ℕ) (stats : AccountStatistics) :
    HistoryDatabase H :=
  { s with statistics := Function.update s.statistics accountId stats }

/-- A new entry would have the key of another one in `by_seq` or `by_op`. -/
def clashes (s : HistoryDatabase H) (accountId opId : ℕ) : Bool :=
  s.histories.entries.any fun e => e.2.account = accountId ∧
    (e.2.sequence = (s.statistics accountId).totalOps + 1 ∨ e.2.operationId = opId)

/-- The new entry of an account, and its statistics. -/
def addEntry (s : HistoryDatabase H) (accountId opId : ℕ) : HistoryDatabase H :=
  let stats := s.statistics accountId
  { s with
    histories := s.histories.create
      { account := accountId
        operationId := opId
        sequence := stats.totalOps + 1
        next := stats.mostRecentOp } }.setStatistics accountId
    { stats with mostRecentOp := s.histories.next, totalOps := stats.totalOps + 1 }

/-- An entry of an account is removed, and the one after it becomes the first. -/
def dropEntry (s : HistoryDatabase H) (accountId id : ℕ)
    (rest : List (ℕ × AccountTransactionHistory)) : HistoryDatabase H :=
  let stats := s.statistics accountId
  let s := { s with histories := s.histories.erase id }.setStatistics accountId
    { stats with removedOps := stats.removedOps + 1 }
  match rest with
  | [] => s
  | (id', e) :: _ =>
    if e.account = accountId then
      { s with histories := s.histories.modify id' fun e => { e with next := 0 } }
    else s

/-- Whether an entry refers to the operation. -/
def refersTo (s : HistoryDatabase H) (opId : ℕ) : Bool :=
  s.histories.entries.any fun e => e.2.operationId = opId

end HistoryDatabase

/-- The operation of a removed entry goes with it "if configured and no reference left". -/
def removeOperation (p : AccountHistoryPlugin H) (opId : ℕ) : HistoryM H Unit := do
  let s ← get
  if p.partialOperations = true ∧ s.refersTo opId = false then do
    assert .noSuchOperation ((s.operations.lookup opId).isSome = true)
    update fun s => { s with operations := s.operations.erase opId }
  else pure ()

/-- "Remove the earliest account history entry if too many": the second half of
`add_account_history`. -/
def removeEarliest (p : AccountHistoryPlugin H) (accountId athId : ℕ) : HistoryM H Unit := do
  let s ← get
  match lowerBound s.histories accountId with
  | [] => pure ()
  | (id, e) :: rest =>
    -- "make sure don't remove the one just added"
    if e.account = accountId ∧ id ≠ athId then do
      update fun s => s.dropEntry accountId id rest
      removeOperation p e.operationId
    else pure ()

/-- `add_account_history`. -/
def addAccountHistory (p : AccountHistoryPlugin H) (accountId opId : ℕ) : HistoryM H Unit := do
  let s ← get
  assert .noSuchAccount (accountId ∈ s.accounts)
  let athId := s.histories.next
  assert .notUnique (s.clashes accountId opId = false)
  update fun s => s.addEntry accountId opId
  if accountId ∈ p.fullHistoryAccounts then pure ()
  else do
    let s ← get
    let stats := s.statistics accountId
    if p.maxOpsPerAccount < stats.totalOps - stats.removedOps then removeEarliest p accountId athId
    else pure ()

/-- `create_oho`, once. -/
def createOho (h : H) : Option ℕ → HistoryM H ℕ
  | some id => pure id
  | none => do
    let s ← get
    update fun s => { s with operations := s.operations.create h }
    return s.operations.next

/-- `_oho_index->use_next_id()`. -/
def useNextId : HistoryM H Unit :=
  update fun s => { s with operations := s.operations.skip }

/-- The entries when all accounts are tracked. -/
def addForAll (p : AccountHistoryPlugin H) (h : H) (oho : Option ℕ) : HistoryM H (Option ℕ) :=
  if p.impacted h = [] then pure oho
  else do
    let id ← createOho h oho
    if 0 < p.maxOpsPerAccount then do
      (p.impacted h).forM fun a => addAccountHistory p a id
      return some id
    else return some id

/-- The entries when some accounts are tracked: the loop over these. -/
def addForTracked (p : AccountHistoryPlugin H) (h : H) :
    List ℕ → Option ℕ → HistoryM H (Option ℕ)
  | [], oho => pure oho
  | a :: accounts, oho =>
    if a ∈ p.impacted h then do
      let id ← createOho h oho
      addAccountHistory p a id
      addForTracked p h accounts (some id)
    else addForTracked p h accounts oho

/-- Without `partial_operations` every operation is created. -/
def firstOho (p : AccountHistoryPlugin H) (h : H) : HistoryM H (Option ℕ) :=
  if p.partialOperations = true then pure none
  else do
    let id ← createOho h none
    return some id

/-- "For each operation this account applies to that is in the config link it into the history." -/
def addEntries (p : AccountHistoryPlugin H) (h : H) (oho : Option ℕ) : HistoryM H (Option ℕ) :=
  if p.trackedAccounts = [] then addForAll p h oho
  else if 0 < p.maxOpsPerAccount then addForTracked p h p.trackedAccounts oho
  else pure oho

/-- One round of the loop of `update_account_histories`. An operation is missing when the proposal
it was part of has failed. -/
def updateAccountHistory (p : AccountHistoryPlugin H) : Option H → HistoryM H Unit
  | none => useNextId
  | some h =>
    if p.maxOpsPerAccount = 0 ∧ p.partialOperations = true then useNextId
    else do
      let oho ← firstOho p h
      let oho ← addEntries p h oho
      if p.partialOperations = true ∧ oho = none then useNextId else pure ()

/-- `update_account_histories`. -/
def updateAccountHistories (p : AccountHistoryPlugin H) (hist : List (Option H)) : HistoryM H Unit :=
  hist.forM (updateAccountHistory p)

end FinChain.Plugins
