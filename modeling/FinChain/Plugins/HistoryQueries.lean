import FinChain.Lib.SortedLists
import FinChain.Plugins.HistoryOrder

/-!
# Queries of account histories

`get_account_history` walks along the linked list of an account, from the newest entry back to a given operation;
`get_relative_account_history` steps back in the index `by_seq`, from one sequence number to another. Both are to
return what is stored of the account in the range, newest first (`requested`, `requestedRelative`).

The walk stops at an id that stands for no entry, which is also the id of the first entry of all. So what it returns is
asked for of the entries up to that one (`HistoryDatabase.getAccountHistory_eq`).
-/

namespace FinChain.Plugins

open Exec

variable {H : Type} {p : AccountHistoryPlugin H} {s : HistoryDatabase H}

/-- How a query may fail. -/
inductive QueryError
  /-- A failed `FC_ASSERT`. -/
  | assertion
  /-- An object that is not there. -/
  | notFound
  /-- An iterator that is moved or read out of the range of its container. -/
  | outOfRange
  /-- The walk has not come to its end. -/
  | unfinished
  deriving DecidableEq

namespace HistoryDatabase

/-- `operation_id(db)`: an `operation_history_object`, with its id. -/
def fetchOperation (s : HistoryDatabase H) (opId : ℕ) : Except QueryError (ℕ × H) :=
  match s.operations.lookup opId with
  | some h => .ok (opId, h)
  | none => .error .notFound

/-- `next(db)` -/
def fetchEntry (s : HistoryDatabase H) (id : ℕ) : Except QueryError AccountTransactionHistory :=
  match s.histories.lookup id with
  | some e => .ok e
  | none => .error .notFound

/-! ### `get_account_history` -/

/-- The `while` loop of `get_account_history`. -/
def walkHistory (s : HistoryDatabase H) (stop limit start : ℕ) :
    ℕ → Option AccountTransactionHistory → List (ℕ × H) → Except QueryError (List (ℕ × H))
  | 0, _, _ => .error .unfinished
  | _ + 1, none, result => .ok result
  | fuel + 1, some node, result =>
    if stop < node.operationId ∧ result.length < limit then do
      let result ← if node.operationId ≤ start then do
          let op ← s.fetchOperation node.operationId
          pure (result ++ [op])
        else pure result
      if node.next = 0 then s.walkHistory stop limit start fuel none result
      else do
        let next ← s.fetchEntry node.next
        s.walkHistory stop limit start fuel (some next) result
    else .ok result

/-- `get_account_history` -/
def getAccountHistory (s : HistoryDatabase H) (fuel account stop limit start : ℕ) :
    Except QueryError (List (ℕ × H)) := do
  check .assertion (limit ≤ 100)
  check .notFound (account ∈ s.accounts)
  let stats := s.statistics account
  if stats.mostRecentOp = 0 then .ok []
  else do
    let node ← s.fetchEntry stats.mostRecentOp
    let start := if start = 0 then node.operationId else start
    s.walkHistory stop limit start fuel (some node) []

/-! ### `get_relative_account_history` -/

/-- `upper_bound( boost::make_tuple( account, start ) )`, as a position in `by_seq`. -/
def seqUpperBound (s : HistoryDatabase H) (account start : ℕ) : ℕ :=
  ((bySeq s.histories).takeWhile fun e =>
    e.2.account < account || e.2.account = account && e.2.sequence ≤ start).length

/-- `lower_bound( boost::make_tuple( account, stop ) )` -/
def seqLowerBound (s : HistoryDatabase H) (account stop : ℕ) : ℕ :=
  ((bySeq s.histories).takeWhile fun e =>
    e.2.account < account || e.2.account = account && e.2.sequence < stop).length

/-- The `do` loop, with the entries that `itr` has been moved to. -/
def stepBack (s : HistoryDatabase H) (itrStop limit : ℕ) :
    ℕ → List (ℕ × H) × List (ℕ × AccountTransactionHistory) →
      Except QueryError (List (ℕ × H) × List (ℕ × AccountTransactionHistory))
  | 0, _ => .error .outOfRange
  | itr + 1, (result, path) =>
    match (bySeq s.histories)[itr]? with
    | none => .error .outOfRange
    | some e => do
      let op ← s.fetchOperation e.2.operationId
      let result := result ++ [op]
      let path := path ++ [e]
      if itr ≠ itrStop ∧ result.length < limit then s.stepBack itrStop limit itr (result, path)
      else .ok (result, path)

/-- `get_relative_account_history`, with the entries that `itr` has been moved to. -/
def getRelativeAccountHistory (s : HistoryDatabase H) (account stop limit start : ℕ) :
    Except QueryError (List (ℕ × H) × List (ℕ × AccountTransactionHistory)) := do
  check .assertion (limit ≤ 100)
  check .notFound (account ∈ s.accounts)
  let stats := s.statistics account
  let start := if start = 0 then stats.totalOps else min stats.totalOps start
  if stop ≤ start ∧ stats.removedOps < start ∧ 0 < limit then
    s.stepBack (s.seqLowerBound account stop) limit (s.seqUpperBound account start) ([], [])
  else .ok ([], [])

/-! ### What is asked for -/

/-- The entries of an account, the newest first. -/
def newestFirst (s : HistoryDatabase H) (account : ℕ) : List (ℕ × AccountTransactionHistory) :=
  ((bySeq s.histories).filter fun e => e.2.account = account).reverse

/-- The operation from which on entries are asked for: the newest one, if nothing is said. -/
def startOf (s : HistoryDatabase H) (account start : ℕ) : ℕ :=
  if start = 0 then (s.newestFirst account).head?.elim 0 fun e => e.2.operationId else start

/-- **The operations that `get_account_history` is asked for.** -/
def requested (s : HistoryDatabase H) (account stop limit start : ℕ) : List ℕ :=
  (((s.newestFirst account).map fun e => e.2.operationId).filter fun id =>
    stop < id && id ≤ s.startOf account start).take limit

/-- The number from which on entries are asked for. -/
def numberOf (s : HistoryDatabase H) (account start : ℕ) : ℕ :=
  if start = 0 then (s.statistics account).totalOps else min (s.statistics account).totalOps start

/-- **The operations that `get_relative_account_history` is asked for.** -/
def requestedRelative (s : HistoryDatabase H) (account stop limit start : ℕ) : List ℕ :=
  (((s.newestFirst account).filter fun e => max stop ((s.statistics account).removedOps + 1) ≤ e.2.sequence &&
    e.2.sequence ≤ s.numberOf account start).map fun e => e.2.operationId).take limit

/-- These operations, with what is stored of them. -/
structure Answers (s : HistoryDatabase H) (ids : List ℕ) (l : List (ℕ × H)) : Prop where
  ids_eq : l.map Prod.fst = ids
  stored : ∀ x ∈ l, s.operations.lookup x.1 = some x.2

/-! ### The walk -/

/-- The operations that a walk along some entries collects. -/
def collect (stop limit start : ℕ) : List (ℕ × AccountTransactionHistory) → ℕ → List ℕ
  | [], _ => []
  | e :: l, n =>
    if stop < e.2.operationId ∧ n < limit then
      if e.2.operationId ≤ start then e.2.operationId :: collect stop limit start l (n + 1)
      else collect stop limit start l n
    else []

/-- The entries are linked, and the last one to nothing. -/
def Linked (s : HistoryDatabase H) : List (ℕ × AccountTransactionHistory) → Prop
  | [] => True
  | [e] => s.histories.lookup e.1 = some e.2 ∧ e.2.next = 0
  | e :: f :: l => s.histories.lookup e.1 = some e.2 ∧ e.2.next = f.1 ∧ s.Linked (f :: l)

section Walk

variable {stop limit start : ℕ} {l : List (ℕ × AccountTransactionHistory)} {e : ℕ × AccountTransactionHistory}

/-- What the walk collects, where operations decrease. -/
theorem collect_eq (hdecreasing : (l.map fun e => e.2.operationId).Pairwise (· > ·)) (n : ℕ) :
    collect stop limit start l n =
      ((l.map fun e => e.2.operationId).filter fun id => stop < id && id ≤ start).take (limit - n) := by
  induction l generalizing n with
  | nil => rw [collect, List.map_nil, List.filter_nil, List.take_nil]
  | cons e l ih =>
    obtain ⟨hfirst, hrest⟩ := List.pairwise_cons.mp hdecreasing
    rw [collect, List.map_cons]
    by_cases hstop : stop < e.2.operationId
    · by_cases hn : n < limit
      · rw [if_pos ⟨hstop, hn⟩]
        by_cases hstart : e.2.operationId ≤ start
        · rw [if_pos hstart, ih hrest, List.filter_cons_of_pos (by simp [hstop, hstart]),
            show limit - n = limit - (n + 1) + 1 by omega, List.take_succ_cons]
        · rw [if_neg hstart, ih hrest, List.filter_cons_of_neg (by simp [hstart])]
      · rw [if_neg fun h => hn h.2, Nat.sub_eq_zero_of_le (Nat.not_lt.mp hn), List.take_zero]
    · -- all further operations are older
      have hnone : ∀ id ∈ e.2.operationId :: l.map fun e => e.2.operationId,
          ¬ (decide (stop < id) && decide (id ≤ start)) = true := by
        intro id hid
        have hle : id ≤ e.2.operationId := (List.mem_cons.mp hid).elim le_of_eq fun h => le_of_lt (hfirst id h)
        simp
        omega
      rw [if_neg fun h => hstop h.1, List.filter_eq_nil_iff.mpr hnone, List.take_nil]

theorem fetchOperation_eq {opId : ℕ} (h : (s.operations.lookup opId).isSome = true) :
    ∃ o, s.fetchOperation opId = .ok (opId, o) ∧ s.operations.lookup opId = some o := by
  obtain ⟨o, ho⟩ := Option.isSome_iff_exists.mp h
  refine ⟨o, ?_, ho⟩
  unfold fetchOperation
  rw [ho]

/-- The id that an entry has to be linked to. -/
def linkTo (l : List (ℕ × AccountTransactionHistory)) : ℕ := l.head?.elim 0 Prod.fst

theorem Linked.head (h : s.Linked (e :: l)) :
    s.histories.lookup e.1 = some e.2 ∧ e.2.next = linkTo l ∧ s.Linked l := by
  cases l with
  | nil => exact ⟨h.1, h.2, trivial⟩
  | cons f l => exact h

variable (stop limit start) in
theorem walkHistory_step (hknown : (s.operations.lookup e.2.operationId).isSome = true) (fuel : ℕ)
    (result : List (ℕ × H)) : ∃ added : List (ℕ × H),
      s.walkHistory stop limit start (fuel + 1) (some e.2) result =
        (if stop < e.2.operationId ∧ result.length < limit then
          if e.2.next = 0 then s.walkHistory stop limit start fuel none (result ++ added)
          else s.fetchEntry e.2.next >>= fun next =>
            s.walkHistory stop limit start fuel (some next) (result ++ added)
        else .ok result) ∧
      (∀ x ∈ added, s.operations.lookup x.1 = some x.2) ∧
      ∀ l, collect stop limit start (e :: l) result.length =
        if stop < e.2.operationId ∧ result.length < limit then
          added.map Prod.fst ++ collect stop limit start l (result ++ added).length
        else [] := by
  obtain ⟨o, hfetch, ho⟩ := fetchOperation_eq hknown
  conv in walkHistory _ _ _ _ (fuel + 1) _ _ => rw [walkHistory]
  by_cases hstart : e.2.operationId ≤ start
  · refine ⟨[(e.2.operationId, o)], ?_, ?_, fun l => ?_⟩
    · rw [if_pos hstart, hfetch]
      rfl
    · intro x hx
      rw [List.mem_singleton.mp hx]
      exact ho
    · rw [collect, if_pos hstart, List.length_append]
      rfl
  · refine ⟨[], ?_, fun _ h => absurd h List.not_mem_nil, fun l => ?_⟩
    · rw [if_neg hstart, List.append_nil]
      rfl
    · rw [collect, if_neg hstart, List.append_nil, List.map_nil, List.nil_append]

variable (stop limit start) in
/-- **The walk** from an entry, up to the first link to the id zero. -/
theorem walkHistory_eq (hknown : ∀ f ∈ e :: l, (s.operations.lookup f.2.operationId).isSome = true)
    (hlinked : s.Linked (e :: l)) {fuel : ℕ} (hfuel : l.length + 2 ≤ fuel) (result : List (ℕ × H)) :
    ∃ more, s.walkHistory stop limit start fuel (some e.2) result = .ok (result ++ more) ∧
      s.Answers (collect stop limit start (e :: l.takeWhile fun f => f.1 ≠ 0) result.length) more := by
  induction l generalizing e fuel result with
  | nil =>
    obtain ⟨fuel, rfl⟩ := Nat.exists_eq_add_of_le' hfuel
    obtain ⟨added, hwalk, hadded, hcollect⟩ :=
      walkHistory_step stop limit start (hknown e List.mem_cons_self) (fuel + 1) result
    have hlast : e.2.next = 0 := hlinked.head.2.1
    change ∃ more, s.walkHistory stop limit start (fuel + 1 + 1) (some e.2) result = .ok (result ++ more) ∧ _
    rw [List.takeWhile_nil, hcollect, hwalk, if_pos hlast]
    by_cases hgoes : stop < e.2.operationId ∧ result.length < limit
    · rw [if_pos hgoes, if_pos hgoes]
      exact ⟨added, rfl, List.append_nil _ |>.symm, hadded⟩
    · rw [if_neg hgoes, if_neg hgoes]
      exact ⟨[], by rw [List.append_nil], rfl, fun _ h => absurd h List.not_mem_nil⟩
  | cons f l ih =>
    obtain ⟨fuel, rfl⟩ := Nat.exists_eq_add_of_le' hfuel
    obtain ⟨-, hnext, hrest⟩ := hlinked.head
    obtain ⟨added, hwalk, hadded, hcollect⟩ := walkHistory_step stop limit start
      (hknown e List.mem_cons_self) (fuel + l.length + 2) result
    change e.2.next = f.1 at hnext
    rw [hcollect, show fuel + ((f :: l).length + 2) = fuel + l.length + 2 + 1 by rw [List.length_cons]; omega, hwalk,
      hnext]
    by_cases hgoes : stop < e.2.operationId ∧ result.length < limit
    · rw [if_pos hgoes, if_pos hgoes]
      by_cases hzero : f.1 = 0
      · -- the link to the entry zero is taken for the end
        rw [if_pos hzero, List.takeWhile_cons_of_neg (by simp [hzero])]
        exact ⟨added, rfl, List.append_nil _ |>.symm, hadded⟩
      · have hfetch : s.fetchEntry f.1 = .ok f.2 := by
          unfold fetchEntry
          rw [hrest.head.1]
        rw [if_neg hzero, List.takeWhile_cons_of_pos (by simpa using hzero), hfetch]
        obtain ⟨more, hmore, hanswers⟩ := ih (fun x hx => hknown x (.tail _ hx)) hrest
          (show l.length + 2 ≤ fuel + l.length + 2 by omega) (result ++ added)
        refine ⟨added ++ more, ?_, ?_, fun x hx => (List.mem_append.mp hx).elim (hadded x) (hanswers.stored x)⟩
        · rw [← List.append_assoc]
          exact hmore
        · rw [List.map_append, hanswers.ids_eq]
    · rw [if_neg hgoes, if_neg hgoes]
      exact ⟨[], by rw [List.append_nil], rfl, fun _ h => absurd h List.not_mem_nil⟩

end Walk

/-! ### The entries of an account -/

section Entries

variable {a : ℕ} {e : ℕ × AccountTransactionHistory} {l : List (ℕ × AccountTransactionHistory)}

theorem mem_newestFirst : e ∈ s.newestFirst a ↔ s.histories.lookup e.1 = some e.2 ∧ e.2.account = a := by
  unfold newestFirst
  rw [List.mem_reverse, List.mem_filter, mem_bySeq, decide_eq_true_eq]

/-- The entries of an account, by their numbers. -/
theorem pairwise_newestFirst (h : s.Listed a) :
    (s.newestFirst a).Pairwise fun e f => f.2.sequence < e.2.sequence := by
  unfold newestFirst
  rw [List.pairwise_reverse]
  have hboth := ((pairwise_bySeq s.histories).and (nodup_bySeq s.histories)).filter fun e => e.2.account = a
  refine hboth.imp_of_mem fun {e f} he hf hef => ?_
  obtain ⟨heIn, heAcc⟩ := List.mem_filter.mp he
  obtain ⟨hfIn, hfAcc⟩ := List.mem_filter.mp hf
  replace heAcc := of_decide_eq_true heAcc
  replace hfAcc := of_decide_eq_true hfAcc
  have hle : e.2.sequence ≤ f.2.sequence := by
    have hseq := hef.1
    unfold AccountTransactionHistory.SeqLE at hseq
    omega
  refine lt_of_le_of_ne hle fun heq => hef.2 ?_
  -- two entries of one number are one
  have hlookup := mem_bySeq.mp heIn
  have hlookup' := mem_bySeq.mp hfIn
  have hid : e.1 = f.1 := h.unique _ _ _ _ _ ⟨hlookup, heAcc, rfl⟩ ⟨hlookup', hfAcc, heq.symm⟩
  rw [hid, hlookup'] at hlookup
  exact Prod.ext hid (Option.some.inj hlookup).symm

theorem sequence_newestFirst (h : s.Listed a) : (s.newestFirst a).map (fun e => e.2.sequence) =
    (List.range' ((s.statistics a).removedOps + 1)
      ((s.statistics a).totalOps - (s.statistics a).removedOps)).reverse := by
  have hsorted : ((s.newestFirst a).map fun e => e.2.sequence).Pairwise (· > ·) :=
    List.pairwise_map.mpr (pairwise_newestFirst h)
  have hrange : (List.range' ((s.statistics a).removedOps + 1)
      ((s.statistics a).totalOps - (s.statistics a).removedOps)).reverse.Pairwise (· > ·) :=
    List.pairwise_reverse.mpr List.pairwise_lt_range'
  refine List.Perm.eq_of_pairwise (fun k m _ _ hkm hmk => absurd hkm (lt_asymm hmk)) hsorted hrange ?_
  refine (List.perm_ext_iff_of_nodup (hsorted.imp ne_of_gt) (hrange.imp ne_of_gt)).mpr fun k => ?_
  rw [List.mem_map, List.mem_reverse, List.mem_range'_1]
  constructor
  · rintro ⟨e, he, rfl⟩
    obtain ⟨hlookup, hacc⟩ := mem_newestFirst.mp he
    have hbounds := h.stored _ _ _ ⟨hlookup, hacc, rfl⟩
    omega
  · intro hk
    obtain ⟨id, e, hlookup, hacc, hseq⟩ := h.present k (by omega) (by omega)
    exact ⟨(id, e), mem_newestFirst.mpr ⟨hlookup, hacc⟩, hseq⟩

/-- Entries of consecutive numbers are linked. -/
theorem linked_of_sequence (h : s.Listed a) {n : ℕ}
    (hseq : l.map (fun e => e.2.sequence) = (List.range' ((s.statistics a).removedOps + 1) n).reverse)
    (hmem : ∀ e ∈ l, s.histories.lookup e.1 = some e.2 ∧ e.2.account = a) : s.Linked l := by
  induction n generalizing l with
  | zero =>
    cases List.map_eq_nil_iff.mp hseq
    trivial
  | succ n ih =>
    rw [List.range'_1_concat, List.reverse_append] at hseq
    obtain ⟨e, l, rfl, hhead, hrest⟩ := List.map_eq_cons_iff.mp hseq
    obtain ⟨hlookup, hacc⟩ := hmem e List.mem_cons_self
    have htail := ih hrest fun f hf => hmem f (.tail e hf)
    cases l with
    | nil =>
      -- nothing is before the first number
      cases n with
      | zero => exact ⟨hlookup, h.oldest _ _ ⟨hlookup, hacc, hhead⟩⟩
      | succ n =>
        rw [List.range'_1_concat, List.reverse_append] at hrest
        cases hrest
    | cons f l =>
      cases n with
      | zero => cases hrest
      | succ n =>
        rw [List.range'_1_concat, List.reverse_append] at hrest
        obtain ⟨hlookup', hacc'⟩ := hmem f (.tail e List.mem_cons_self)
        have hf : f.2.sequence = (s.statistics a).removedOps + 1 + n := (List.cons.inj hrest).1
        refine ⟨hlookup, h.link f.2.sequence _ _ _ _ ⟨hlookup', hacc', rfl⟩ ⟨hlookup, hacc, ?_⟩, htail⟩
        rw [hhead, hf]
        rfl

theorem linked_newestFirst (h : s.Listed a) : s.Linked (s.newestFirst a) :=
  linked_of_sequence h (sequence_newestFirst h) fun _ he => mem_newestFirst.mp he

/-- The operations of an account decrease along its list. -/
theorem decreasing_newestFirst (h : s.Listed a) (hordered : s.Ordered) :
    ((s.newestFirst a).map fun e => e.2.operationId).Pairwise (· > ·) := by
  rw [List.pairwise_map]
  refine (pairwise_newestFirst h).imp_of_mem fun {e f} he hf hlt => ?_
  obtain ⟨hlookup, hacc⟩ := mem_newestFirst.mp he
  obtain ⟨hlookup', hacc'⟩ := mem_newestFirst.mp hf
  exact hordered.increasing _ _ _ _ hlookup' hlookup (hacc'.trans hacc.symm) hlt

/-! ### What the queries return -/

/-- What both queries rely on. -/
structure Queryable (s : HistoryDatabase H) : Prop where
  listed : ∀ a, s.Listed a
  ordered : s.Ordered
  known : ∀ id e, s.histories.lookup id = some e → (s.operations.lookup e.operationId).isSome = true

variable {stop limit start fuel : ℕ}

variable (stop start) in
/-- **`get_account_history`** returns what is asked for of the entries up to one that has the id zero. -/
theorem getAccountHistory_eq (h : s.Queryable) (hlimit : limit ≤ 100) (ha : a ∈ s.accounts)
    (hfuel : (s.statistics a).totalOps < fuel) : ∃ r, s.getAccountHistory fuel a stop limit start = .ok r ∧
      s.Answers (((((s.newestFirst a).takeWhile fun e => e.1 ≠ 0).map fun e => e.2.operationId).filter fun id =>
        stop < id && id ≤ s.startOf a start).take limit) r := by
  have hlisted := h.listed a
  have hlinked := linked_newestFirst hlisted
  have hdecreasing := decreasing_newestFirst hlisted h.ordered
  have hseq := sequence_newestFirst hlisted
  have hlength : (s.newestFirst a).length = (s.statistics a).totalOps - (s.statistics a).removedOps := by
    have hmap := congrArg List.length hseq
    rwa [List.length_map, List.length_reverse, List.length_range'] at hmap
  have hknown : ∀ e ∈ s.newestFirst a, (s.operations.lookup e.2.operationId).isSome = true :=
    fun e he => h.known _ _ (mem_newestFirst.mp he).1
  have hmem : ∀ e ∈ s.newestFirst a, s.IsEntry a e.2.sequence e.1 e.2 := fun e he =>
    ⟨(mem_newestFirst.mp he).1, (mem_newestFirst.mp he).2, rfl⟩
  have hchecks : check QueryError.assertion (limit ≤ 100) = .ok () := if_pos hlimit
  have hchecks' : check QueryError.notFound (a ∈ s.accounts) = .ok () := if_pos ha
  have hrun : s.getAccountHistory fuel a stop limit start =
      if (s.statistics a).mostRecentOp = 0 then .ok []
      else s.fetchEntry (s.statistics a).mostRecentOp >>= fun node =>
        s.walkHistory stop limit (if start = 0 then node.operationId else start) fuel (some node) [] := by
    unfold getAccountHistory
    rw [hchecks, hchecks']
    rfl
  rw [hrun, startOf]
  cases hnewest : s.newestFirst a with
  | nil =>
    have hnull : (s.statistics a).mostRecentOp = 0 := by
      rw [hnewest] at hlength
      change 0 = _ at hlength
      rcases hlisted.nonempty with ⟨-, -, hnull⟩ | hlt
      · exact hnull
      · omega
    rw [if_pos hnull]
    exact ⟨[], rfl, by simp, fun _ h => absurd h List.not_mem_nil⟩
  | cons e l =>
    rw [hnewest] at hlinked hdecreasing hseq hlength hknown hmem
    have he := hmem e List.mem_cons_self
    have htotal : e.2.sequence = (s.statistics a).totalOps := by
      have hpos : (s.statistics a).totalOps - (s.statistics a).removedOps = l.length + 1 := hlength.symm
      rw [hpos, List.range'_1_concat, List.reverse_append] at hseq
      have hhead : e.2.sequence = (s.statistics a).removedOps + 1 + l.length := (List.cons.inj hseq).1
      omega
    have hrecent : (s.statistics a).mostRecentOp = e.1 := hlisted.last e.1 e.2 (htotal ▸ he)
    rw [hrecent]
    by_cases hzero : e.1 = 0
    · rw [if_pos hzero, List.takeWhile_cons_of_neg (by simp [hzero])]
      exact ⟨[], rfl, by simp, fun _ h => absurd h List.not_mem_nil⟩
    · have hfetch : s.fetchEntry e.1 = .ok e.2 := by
        unfold fetchEntry
        rw [he.1]
      rw [if_neg hzero, hfetch, List.takeWhile_cons_of_pos (by simpa using hzero)]
      obtain ⟨more, hmore, hanswers⟩ := walkHistory_eq stop limit
        (if start = 0 then e.2.operationId else start) (s := s) hknown hlinked
        (show l.length + 2 ≤ fuel by rw [List.length_cons] at hlength; omega) []
      have hsub : ((e :: l.takeWhile fun f => f.1 ≠ 0).map fun f => f.2.operationId).Pairwise (· > ·) :=
        hdecreasing.sublist (((List.takeWhile_sublist _).cons_cons e).map _)
      rw [collect_eq hsub] at hanswers
      exact ⟨more, hmore, hanswers⟩

end Entries

end HistoryDatabase

end FinChain.Plugins
