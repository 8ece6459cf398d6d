import FinChain.Lib.NumberedList
import FinChain.Plugins.AccountHistory
import Mathlib.Data.List.TakeWhile

/-!
# Histories are numbered lists

Along any run of `update_account_histories` the entries of each account are a `NumberedList`, with
the counters of its statistics as bounds and no more entries than configured; every entry refers to
an operation that exists, and with `partial_operations` every operation is referred to
(`accountHistory_of_run`).

The invariant holds between the calls of `add_account_history`. Only the operation that is just being
noted may be without an entry for a moment (`fresh`). That an entry is never refused by the indexes
`by_seq` and `by_op` is part of the argument: the numbers of a list are unique, and the operation is
new to each account it has not been noted for yet (`NewTo`).
-/

namespace FinChain.Plugins

open Exec

variable {H : Type} {p : AccountHistoryPlugin H} {s s' : HistoryDatabase H}

namespace HistoryDatabase

/-- The entry of an account with the given number. -/
def IsEntry (s : HistoryDatabase H) (a k id : ℕ) (e : AccountTransactionHistory) : Prop :=
  s.histories.lookup id = some e ∧ e.account = a ∧ e.sequence = k

/-- The history of an account is a numbered list. -/
def Listed (s : HistoryDatabase H) (a : ℕ) : Prop :=
  NumberedList AccountTransactionHistory.next 0 (s.statistics a).removedOps
    (s.statistics a).totalOps (s.statistics a).mostRecentOp (s.IsEntry a)

theorem Listed.congr {a : ℕ} (h : s.Listed a) (hstats : s'.statistics a = s.statistics a)
    (hentries : ∀ id e, e.account = a →
      (s'.histories.lookup id = some e ↔ s.histories.lookup id = some e)) : s'.Listed a := by
  unfold Listed
  rw [hstats]
  refine NumberedList.congr h fun k id e => ?_
  constructor
  · rintro ⟨hlookup, hacc, hseq⟩
    exact ⟨(hentries id e hacc).mp hlookup, hacc, hseq⟩
  · rintro ⟨hlookup, hacc, hseq⟩
    exact ⟨(hentries id e hacc).mpr hlookup, hacc, hseq⟩

/-! ### The oldest entry -/

theorem mem_bySeq {x : Index AccountTransactionHistory} {e : ℕ × AccountTransactionHistory} :
    e ∈ bySeq x ↔ x.lookup e.1 = some e.2 := by
  unfold bySeq
  rw [List.mem_insertionSort]
  exact ⟨Index.lookup_of_mem_entries, Index.mem_entries_of_lookup⟩

theorem nodup_entries (x : Index AccountTransactionHistory) : (x.entries.map Prod.fst).Nodup := by
  have hkeys := x.table.nodupKeys
  unfold Index.entries
  rw [List.map_map]
  exact hkeys

theorem nodup_bySeq (x : Index AccountTransactionHistory) : (bySeq x).Nodup :=
  (List.perm_insertionSort _ _).nodup_iff.mpr (nodup_entries x).of_map

theorem pairwise_bySeq (x : Index AccountTransactionHistory) :
    (bySeq x).Pairwise fun e f => e.2.SeqLE f.2 := by
  have htotal : Std.Total fun e f : ℕ × AccountTransactionHistory => e.2.SeqLE f.2 := by
    refine ⟨fun e f => ?_⟩
    unfold AccountTransactionHistory.SeqLE
    omega
  have htrans : IsTrans _ fun e f : ℕ × AccountTransactionHistory => e.2.SeqLE f.2 := by
    refine ⟨fun e f g hef hfg => ?_⟩
    unfold AccountTransactionHistory.SeqLE at *
    omega
  exact List.pairwise_insertionSort _ _

/-- From the lower bound of an account on there are its entries, and those of higher accounts. -/
theorem mem_lowerBound {x : Index AccountTransactionHistory} {a : ℕ}
    {e : ℕ × AccountTransactionHistory} :
    e ∈ lowerBound x a ↔ x.lookup e.1 = some e.2 ∧ a ≤ e.2.account := by
  have hsplit : (bySeq x).takeWhile (fun e => decide (e.2.account < a)) ++
      (bySeq x).dropWhile (fun e => decide (e.2.account < a)) = bySeq x :=
    List.takeWhile_append_dropWhile
  have hsorted := pairwise_bySeq x
  constructor
  · intro he
    have hmem : e ∈ bySeq x := (List.dropWhile_suffix _).subset he
    refine ⟨mem_bySeq.mp hmem, ?_⟩
    unfold lowerBound at he
    cases hdrop : (bySeq x).dropWhile fun e => decide (e.2.account < a) with
    | nil =>
      rw [hdrop] at he
      cases he
    | cons f l =>
      have hnot := List.head?_dropWhile_not (fun e => decide (e.2.account < a)) (bySeq x)
      rw [hdrop] at hnot
      have hfirst : ¬ f.2.account < a := of_decide_eq_false hnot
      rw [hdrop] at he
      rcases List.mem_cons.mp he with rfl | he
      · omega
      · rw [← hsplit, hdrop] at hsorted
        have hle := (List.pairwise_cons.mp (List.pairwise_append.mp hsorted).2.1).1 e he
        unfold AccountTransactionHistory.SeqLE at hle
        omega
  · rintro ⟨hlookup, hle⟩
    have hmem : e ∈ bySeq x := mem_bySeq.mpr hlookup
    rw [← hsplit] at hmem
    rcases List.mem_append.mp hmem with htake | hdrop
    · have hlt := List.mem_takeWhile_imp htake
      rw [decide_eq_true_eq] at hlt
      omega
    · exact hdrop

/-- The two oldest entries of an account are the first two from its lower bound on. -/
theorem Listed.lowerBound_eq {a : ℕ} (h : s.Listed a)
    (hmore : (s.statistics a).removedOps + 1 < (s.statistics a).totalOps) :
    ∃ e f rest, lowerBound s.histories a = e :: f :: rest ∧
      s.IsEntry a ((s.statistics a).removedOps + 1) e.1 e.2 ∧
      s.IsEntry a ((s.statistics a).removedOps + 2) f.1 f.2 := by
  obtain ⟨i, e₀, he₀⟩ := h.present _ (Nat.lt_succ_self _) (Nat.le_of_lt hmore)
  obtain ⟨j, f₀, hf₀⟩ := h.present ((s.statistics a).removedOps + 2) (by omega) hmore
  have hmem : (i, e₀) ∈ lowerBound s.histories a := mem_lowerBound.mpr ⟨he₀.1, by rw [he₀.2.1]⟩
  have hmem' : (j, f₀) ∈ lowerBound s.histories a := mem_lowerBound.mpr ⟨hf₀.1, by rw [hf₀.2.1]⟩
  have hsorted : (lowerBound s.histories a).Pairwise fun e f => e.2.SeqLE f.2 :=
    (pairwise_bySeq s.histories).sublist (List.dropWhile_suffix _).sublist
  have hnodup : (lowerBound s.histories a).Nodup :=
    (nodup_bySeq s.histories).sublist (List.dropWhile_suffix _).sublist
  have hne : (i, e₀) ≠ (j, f₀) := by
    intro heq
    have hseq : e₀.sequence = f₀.sequence := by rw [(Prod.mk.inj heq).2]
    rw [he₀.2.2, hf₀.2.2] at hseq
    omega
  -- an entry of the account that is not above another one in the order is not above it in number
  have hbelow : ∀ {e f : ℕ × AccountTransactionHistory}, e ∈ lowerBound s.histories a →
      f.2.account = a → e.2.SeqLE f.2 ∨ e = f → s.IsEntry a e.2.sequence e.1 e.2 ∧
        e.2.sequence ≤ f.2.sequence := by
    intro e f he hf hle
    obtain ⟨hlookup, hacc⟩ := mem_lowerBound.mp he
    rcases hle with hle | rfl
    · unfold AccountTransactionHistory.SeqLE at hle
      have hacc' : e.2.account = a := by omega
      exact ⟨⟨hlookup, hacc', rfl⟩, by omega⟩
    · exact ⟨⟨hlookup, hf, rfl⟩, Nat.le_refl _⟩
  cases hlist : lowerBound s.histories a with
  | nil =>
    rw [hlist] at hmem
    cases hmem
  | cons e l =>
    rw [hlist] at hmem hmem' hsorted hnodup hbelow
    obtain ⟨hfirst, hsorted'⟩ := List.pairwise_cons.mp hsorted
    obtain ⟨hnot, -⟩ := List.nodup_cons.mp hnodup
    obtain ⟨he, hele⟩ := hbelow (f := (i, e₀)) List.mem_cons_self he₀.2.1
      ((List.mem_cons.mp hmem).elim (fun heq => .inr heq.symm) fun hin => .inl (hfirst _ hin))
    have hebounds := h.stored _ _ _ he
    change e.2.sequence ≤ e₀.sequence at hele
    rw [he₀.2.2] at hele
    have heseq : e.2.sequence = (s.statistics a).removedOps + 1 := by omega
    rw [heseq] at he
    have hi : e.1 = i := h.unique _ _ _ _ _ he he₀
    have heq : e = (i, e₀) := by
      refine Prod.ext hi (Option.some.inj ?_)
      rw [← he.1, ← he₀.1, hi]
    have hmem' : (j, f₀) ∈ l := by
      rcases List.mem_cons.mp hmem' with hhead | hin
      · exact absurd (heq.symm.trans hhead.symm) hne
      · exact hin
    cases l with
    | nil => cases hmem'
    | cons f rest =>
      refine ⟨e, f, rest, rfl, he, ?_⟩
      obtain ⟨hsecond, -⟩ := List.pairwise_cons.mp hsorted'
      obtain ⟨hf, hfle⟩ := hbelow (f := (j, f₀)) (List.mem_cons_of_mem _ List.mem_cons_self) hf₀.2.1
        ((List.mem_cons.mp hmem').elim (fun heq => .inr heq.symm) fun hin => .inl (hsecond _ hin))
      have hfbounds := h.stored _ _ _ hf
      change f.2.sequence ≤ f₀.sequence at hfle
      rw [hf₀.2.2] at hfle
      have hother : f.2.sequence ≠ (s.statistics a).removedOps + 1 := by
        intro hsame
        rw [hsame] at hf
        have hid : f.1 = e.1 := h.unique _ _ _ _ _ hf he
        have hsame : f = e := by
          refine Prod.ext hid (Option.some.inj ?_)
          rw [← hf.1, ← he.1, hid]
        rw [hsame] at hnot
        exact hnot List.mem_cons_self
      have hfseq : f.2.sequence = (s.statistics a).removedOps + 2 := by omega
      rwa [hfseq] at hf

/-! ### One entry more, one entry less -/

@[simp] theorem statistics_setStatistics (s : HistoryDatabase H) (a : ℕ) (stats : AccountStatistics)
    (b : ℕ) : (s.setStatistics a stats).statistics b = if b = a then stats else s.statistics b :=
  Function.update_apply _ _ _ _

theorem lookup_addEntry (s : HistoryDatabase H) (a opId id : ℕ) :
    (s.addEntry a opId).histories.lookup id = if id = s.histories.next then
      some { account := a, operationId := opId, sequence := (s.statistics a).totalOps + 1,
             next := (s.statistics a).mostRecentOp }
      else s.histories.lookup id :=
  Index.lookup_create _ _ _

theorem Listed.addEntry (h : ∀ b, s.Listed b) (a opId b : ℕ) : (s.addEntry a opId).Listed b := by
  have hnew : s.histories.lookup s.histories.next = none := Index.lookup_next _
  by_cases hb : b = a
  · rw [hb]
    unfold Listed
    have hstats : (s.addEntry a opId).statistics a =
        { s.statistics a with
          mostRecentOp := s.histories.next
          totalOps := (s.statistics a).totalOps + 1 } :=
      (statistics_setStatistics _ _ _ _).trans (if_pos rfl)
    rw [hstats]
    refine NumberedList.push (h a) (a := {
      account := a
      operationId := opId
      sequence := (s.statistics a).totalOps + 1
      next := (s.statistics a).mostRecentOp }) rfl fun k i e => ?_
    unfold IsEntry
    rw [lookup_addEntry]
    by_cases hi : i = s.histories.next
    · rw [if_pos hi, hi, hnew]
      constructor
      · rintro ⟨heq, -, hseq⟩
        obtain rfl := Option.some.inj heq
        exact .inr ⟨hseq.symm, rfl, rfl⟩
      · rintro (⟨hnone, -⟩ | ⟨hk, -, rfl⟩)
        · cases hnone
        · exact ⟨rfl, rfl, hk.symm⟩
    · rw [if_neg hi]
      constructor
      · exact .inl
      · rintro (he | ⟨-, hi', -⟩)
        · exact he
        · exact absurd hi' hi
  · refine (h b).congr ?_ fun id e he => ?_
    · exact (statistics_setStatistics _ _ _ _).trans (if_neg hb)
    · rw [lookup_addEntry]
      split
      · next hid =>
        rw [hid, hnew]
        constructor
        · intro heq
          obtain rfl := Option.some.inj heq
          exact absurd he.symm hb
        · intro hnone
          cases hnone
      · exact Iff.rfl

theorem lookup_dropEntry {a : ℕ} {e f : ℕ × AccountTransactionHistory}
    {rest : List (ℕ × AccountTransactionHistory)} (hf : f.2.account = a) (id : ℕ) :
    (s.dropEntry a e.1 (f :: rest)).histories.lookup id =
      if id = f.1 then ((s.histories.erase e.1).lookup f.1).map fun g => { g with next := 0 }
      else if id = e.1 then none else s.histories.lookup id := by
  unfold dropEntry
  simp only [if_pos hf]
  rw [Index.lookup_modify]
  split
  · rfl
  · exact Index.lookup_erase _ _ _

theorem statistics_dropEntry {a : ℕ} {e f : ℕ × AccountTransactionHistory}
    {rest : List (ℕ × AccountTransactionHistory)} (hf : f.2.account = a) (b : ℕ) :
    (s.dropEntry a e.1 (f :: rest)).statistics b =
      if b = a then { s.statistics a with removedOps := (s.statistics a).removedOps + 1 }
      else s.statistics b := by
  unfold dropEntry
  simp only [if_pos hf]
  exact statistics_setStatistics _ _ _ _

/-- What is left of the entries when the oldest one of an account is removed. -/
theorem lookup_dropEntry_iff {a r : ℕ} {e f : ℕ × AccountTransactionHistory}
    (rest : List (ℕ × AccountTransactionHistory)) (h : s.Listed a) (he : s.IsEntry a (r + 1) e.1 e.2)
    (hf : s.IsEntry a (r + 2) f.1 f.2) (id : ℕ) (g : AccountTransactionHistory) :
    (s.dropEntry a e.1 (f :: rest)).histories.lookup id = some g ↔
      ∃ g₀, s.histories.lookup id = some g₀ ∧ ¬ (g₀.account = a ∧ g₀.sequence = r + 1) ∧
        g = if g₀.account = a ∧ g₀.sequence = r + 2 then { g₀ with next := 0 } else g₀ := by
  have hne : f.1 ≠ e.1 := by
    intro heq
    have hsame : f.2 = e.2 := by
      refine Option.some.inj ?_
      rw [← hf.1, ← he.1, heq]
    have hseq := hf.2.2
    rw [hsame, he.2.2] at hseq
    omega
  have hfirst : ∀ g₀, s.histories.lookup id = some g₀ → g₀.account = a → g₀.sequence = r + 1 →
      id = e.1 := fun g₀ hg₀ hacc hseq => h.unique _ _ _ _ _ ⟨hg₀, hacc, hseq⟩ he
  have hsecond : ∀ g₀, s.histories.lookup id = some g₀ → g₀.account = a → g₀.sequence = r + 2 →
      id = f.1 := fun g₀ hg₀ hacc hseq => h.unique _ _ _ _ _ ⟨hg₀, hacc, hseq⟩ hf
  rw [lookup_dropEntry hf.2.1]
  by_cases hid : id = f.1
  · rw [if_pos hid, Index.lookup_erase, if_neg hne, hf.1, hid, hf.1]
    constructor
    · intro hg
      refine ⟨f.2, rfl, ?_, ?_⟩
      · rintro ⟨-, hseq⟩
        rw [hf.2.2] at hseq
        omega
      · rw [if_pos hf.2]
        exact (Option.some.inj hg).symm
    · rintro ⟨g₀, hg₀, -, hg⟩
      obtain rfl := Option.some.inj hg₀
      rw [if_pos hf.2] at hg
      rw [hg]
      rfl
  · rw [if_neg hid]
    by_cases hid' : id = e.1
    · rw [if_pos hid']
      constructor
      · intro hnone
        cases hnone
      · rintro ⟨g₀, hg₀, hnot, -⟩
        rw [hid', he.1] at hg₀
        obtain rfl := Option.some.inj hg₀
        exact absurd he.2 hnot
    · rw [if_neg hid']
      constructor
      · intro hg
        refine ⟨g, hg, fun hgone => hid' (hfirst g hg hgone.1 hgone.2), ?_⟩
        rw [if_neg fun hnext => hid (hsecond g hg hnext.1 hnext.2)]
      · rintro ⟨g₀, hg₀, -, hg⟩
        rw [if_neg fun hnext => hid (hsecond g₀ hg₀ hnext.1 hnext.2)] at hg
        rw [hg]
        exact hg₀

theorem Listed.dropEntry (h : ∀ b, s.Listed b) {a : ℕ} {e f : ℕ × AccountTransactionHistory}
    {rest : List (ℕ × AccountTransactionHistory)}
    (hmore : (s.statistics a).removedOps + 1 < (s.statistics a).totalOps)
    (he : s.IsEntry a ((s.statistics a).removedOps + 1) e.1 e.2)
    (hf : s.IsEntry a ((s.statistics a).removedOps + 2) f.1 f.2) (b : ℕ) :
    (s.dropEntry a e.1 (f :: rest)).Listed b := by
  have hlookup := lookup_dropEntry_iff rest (h a) he hf
  by_cases hb : b = a
  · rw [hb]
    unfold Listed
    rw [statistics_dropEntry hf.2.1, if_pos rfl]
    refine NumberedList.pop (h a) hmore (fun g => { g with next := 0 }) (fun _ => rfl)
      fun k i g => ?_
    constructor
    · rintro ⟨hg, hacc, hseq⟩
      obtain ⟨g₀, hg₀, hnot, hshape⟩ := (hlookup i g).mp hg
      have hacc₀ : g₀.account = a := by
        rw [hshape] at hacc
        split at hacc <;> exact hacc
      have hseq₀ : g₀.sequence = k := by
        rw [hshape] at hseq
        split at hseq <;> exact hseq
      refine ⟨fun hk => hnot ⟨hacc₀, hseq₀.trans hk⟩, g₀, ⟨hg₀, hacc₀, hseq₀⟩, ?_⟩
      rw [hshape, hacc₀, hseq₀]
      simp only [true_and]
    · rintro ⟨hk, g₀, ⟨hg₀, hacc₀, hseq₀⟩, hshape⟩
      refine ⟨(hlookup i g).mpr ⟨g₀, hg₀, ?_, ?_⟩, ?_, ?_⟩
      · rintro ⟨-, hseq⟩
        exact hk (hseq₀.symm.trans hseq)
      · rw [hshape, hacc₀, hseq₀]
        simp only [true_and]
      · rw [hshape]
        split <;> exact hacc₀
      · rw [hshape]
        split <;> exact hseq₀
  · refine (h b).congr ?_ fun id g hg => ?_
    · rw [statistics_dropEntry hf.2.1, if_neg hb]
    · rw [hlookup]
      constructor
      · rintro ⟨g₀, hg₀, -, hshape⟩
        have hacc₀ : ¬ (g₀.account = a ∧ g₀.sequence = (s.statistics a).removedOps + 2) := by
          rintro hpos
          rw [if_pos hpos] at hshape
          rw [hshape] at hg
          exact hb (hg.symm.trans hpos.1)
        rw [if_neg hacc₀] at hshape
        rw [hshape]
        exact hg₀
      · intro hg₀
        have hacc : g.account ≠ a := fun heq => hb (hg.symm.trans heq)
        exact ⟨g, hg₀, fun hgone => hacc hgone.1, by rw [if_neg fun hnext => hacc hnext.1]⟩

theorem refersTo_eq_false {opId : ℕ} : s.refersTo opId = false ↔
    ∀ id e, s.histories.lookup id = some e → e.operationId ≠ opId := by
  unfold refersTo
  rw [List.any_eq_false]
  constructor
  · intro h id e he heq
    exact h (id, e) (Index.mem_entries_of_lookup he) (decide_eq_true heq)
  · intro h e he hdec
    exact h e.1 e.2 (Index.lookup_of_mem_entries he) (of_decide_eq_true hdec)

/-- The operation has not been noted for the account. -/
def NewTo (s : HistoryDatabase H) (opId a : ℕ) : Prop :=
  ∀ id e, s.histories.lookup id = some e → e.account = a → e.operationId ≠ opId

theorem clashes_eq_false {a opId : ℕ} (h : s.Listed a) (hnew : s.NewTo opId a) :
    s.clashes a opId = false := by
  unfold clashes
  rw [List.any_eq_false]
  intro e he hclash
  obtain ⟨hacc, hkey⟩ := of_decide_eq_true hclash
  have hlookup := Index.lookup_of_mem_entries he
  rcases hkey with hseq | hop
  · have hbound := (h.stored _ _ _ ⟨hlookup, hacc, hseq⟩).2
    omega
  · exact hnew e.1 e.2 hlookup hacc hop

end HistoryDatabase

open HistoryDatabase

/-! ### The invariant -/

/-- The histories are numbered lists, each within its bound, and entries and operations refer to each
other. Only the operation `fresh` may be without an entry. -/
structure HistoryInv (p : AccountHistoryPlugin H) (s : HistoryDatabase H) (fresh : Option ℕ) : Prop
    where
  listed : ∀ a, s.Listed a
  bounded : ∀ a, a ∉ p.fullHistoryAccounts →
    (s.statistics a).totalOps - (s.statistics a).removedOps ≤ p.maxOpsPerAccount
  known : ∀ id e, s.histories.lookup id = some e → (s.operations.lookup e.operationId).isSome = true
  referenced : p.partialOperations = true → ∀ opId, (s.operations.lookup opId).isSome = true →
    some opId = fresh ∨ ∃ id e, s.histories.lookup id = some e ∧ e.operationId = opId

theorem HistoryInv.weaken (h : HistoryInv p s none) (fresh : Option ℕ) : HistoryInv p s fresh :=
  ⟨h.listed, h.bounded, h.known, fun hpart opId hop =>
    (h.referenced hpart opId hop).elim (fun heq => by cases heq) .inr⟩

/-- What happens between two states in which an operation is noted: the accounts stay, the operation
stays, and to other accounts it stays new. -/
structure Noted (opId a : ℕ) (s s' : HistoryDatabase H) : Prop where
  accounts : s'.accounts = s.accounts
  known : (s'.operations.lookup opId).isSome = true
  newTo : ∀ b, b ≠ a → s.NewTo opId b → s'.NewTo opId b

/-- Removing an operation with its last entry. -/
theorem removeOperation_run {opId opId' : ℕ} (hlisted : ∀ a, s.Listed a)
    (hbounded : ∀ a, a ∉ p.fullHistoryAccounts →
      (s.statistics a).totalOps - (s.statistics a).removedOps ≤ p.maxOpsPerAccount)
    (hknown : ∀ id e, s.histories.lookup id = some e →
      (s.operations.lookup e.operationId).isSome = true)
    (hreferenced : ∀ op, (s.operations.lookup op).isSome = true → p.partialOperations = true →
      op = opId' ∨ ∃ id e, s.histories.lookup id = some e ∧ e.operationId = op)
    (hgone : (s.operations.lookup opId').isSome = true)
    (hkept : ∃ id e, s.histories.lookup id = some e ∧ e.operationId = opId) :
    ∃ s', removeOperation p opId' s = .ok () s' ∧ HistoryInv p s' none ∧
      s'.accounts = s.accounts ∧ s'.histories = s.histories ∧
      (s'.operations.lookup opId).isSome = true := by
  have hop : (s.operations.lookup opId).isSome = true := by
    obtain ⟨id, e, he, rfl⟩ := hkept
    exact hknown id e he
  unfold removeOperation
  rw [get_bind]
  by_cases hremove : p.partialOperations = true ∧ s.refersTo opId' = false
  · rw [if_pos hremove]
    have hnone := refersTo_eq_false.mp hremove.2
    refine ⟨_, assert_bind_eq_ok.mpr ⟨hgone, rfl⟩, ⟨hlisted, hbounded, ?_, ?_⟩, rfl, rfl, ?_⟩
    · intro id e he
      change ((s.operations.erase opId').lookup e.operationId).isSome = true
      rw [Index.lookup_erase, if_neg (hnone id e he)]
      exact hknown id e he
    · intro hpart op hsome
      change ((s.operations.erase opId').lookup op).isSome = true at hsome
      rw [Index.lookup_erase] at hsome
      split at hsome
      · cases hsome
      · next hne => exact .inr ((hreferenced op hsome hpart).resolve_left hne)
    · have hne : opId ≠ opId' := by
        obtain ⟨id, e, he, rfl⟩ := hkept
        exact hnone id e he
      change ((s.operations.erase opId').lookup opId).isSome = true
      rwa [Index.lookup_erase, if_neg hne]
  · rw [if_neg hremove]
    refine ⟨s, rfl, ⟨hlisted, hbounded, hknown, fun hpart op hsome => .inr ?_⟩, rfl, rfl, hop⟩
    rcases hreferenced op hsome hpart with rfl | hentry
    · by_contra hno
      refine hremove ⟨hpart, refersTo_eq_false.mpr fun id e he heq => hno ⟨id, e, he, heq⟩⟩
    · exact hentry

/-- **The oldest entry is removed** when there are several, and with it the operation if it was the
last reference to it. -/
theorem removeEarliest_run (hlisted : ∀ b, s.Listed b) {a : ℕ}
    (hmore : (s.statistics a).removedOps + 1 < (s.statistics a).totalOps)
    (hbounded : ∀ b, b ∉ p.fullHistoryAccounts → (s.statistics b).totalOps -
      (s.statistics b).removedOps ≤ p.maxOpsPerAccount + if b = a then 1 else 0)
    (hknown : ∀ id e, s.histories.lookup id = some e →
      (s.operations.lookup e.operationId).isSome = true)
    (hreferenced : p.partialOperations = true → ∀ op, (s.operations.lookup op).isSome = true →
      ∃ id e, s.histories.lookup id = some e ∧ e.operationId = op)
    {athId : ℕ} {ath : AccountTransactionHistory}
    (hath : s.IsEntry a (s.statistics a).totalOps athId ath) :
    ∃ s', removeEarliest p a athId s = .ok () s' ∧ HistoryInv p s' none ∧
      s'.accounts = s.accounts ∧ (s'.operations.lookup ath.operationId).isSome = true ∧
      ∀ op b, s.NewTo op b → s'.NewTo op b := by
  obtain ⟨e, f, rest, hbound, he, hf⟩ := (hlisted a).lowerBound_eq hmore
  have hlookup := lookup_dropEntry_iff rest (hlisted a) he hf
  have hstays : ∀ {id g}, s.histories.lookup id = some g →
      ¬ (g.account = a ∧ g.sequence = (s.statistics a).removedOps + 1) →
      ∃ g', (s.dropEntry a e.1 (f :: rest)).histories.lookup id = some g' ∧
        g'.operationId = g.operationId := by
    intro id g hg hnot
    refine ⟨_, (hlookup id _).mpr ⟨g, hg, hnot, rfl⟩, ?_⟩
    split <;> rfl
  have hcomes : ∀ {id g}, (s.dropEntry a e.1 (f :: rest)).histories.lookup id = some g →
      ∃ g₀, s.histories.lookup id = some g₀ ∧ g.account = g₀.account ∧
        g.operationId = g₀.operationId := by
    intro id g hg
    obtain ⟨g₀, hg₀, -, hshape⟩ := (hlookup id g).mp hg
    refine ⟨g₀, hg₀, ?_⟩
    rw [hshape]
    split <;> exact ⟨rfl, rfl⟩
  have hother : e.1 ≠ athId := by
    intro heq
    have hath' := hath.1
    rw [← heq, he.1] at hath'
    have hseq := hath.2.2
    rw [← Option.some.inj hath', he.2.2] at hseq
    omega
  have hdrop : removeEarliest p a athId s =
      removeOperation p e.2.operationId (s.dropEntry a e.1 (f :: rest)) := by
    unfold removeEarliest
    rw [get_bind, hbound]
    change (if _ then _ else _ : HistoryM H Unit) _ = _
    rw [if_pos ⟨he.2.1, hother⟩, update_bind]
  have hsame : (s.dropEntry a e.1 (f :: rest)).operations = s.operations ∧
      (s.dropEntry a e.1 (f :: rest)).accounts = s.accounts := by
    unfold HistoryDatabase.dropEntry
    simp only [if_pos hf.2.1]
    exact ⟨rfl, rfl⟩
  rw [hdrop]
  have hremoved : ∃ s', removeOperation p e.2.operationId (s.dropEntry a e.1 (f :: rest)) =
      .ok () s' ∧ HistoryInv p s' none ∧ s'.accounts = (s.dropEntry a e.1 (f :: rest)).accounts ∧
      s'.histories = (s.dropEntry a e.1 (f :: rest)).histories ∧
      (s'.operations.lookup ath.operationId).isSome = true := by
    refine removeOperation_run (Listed.dropEntry hlisted hmore he hf) ?_ ?_ ?_ ?_ ?_
    · intro b hb
      have hle := hbounded b hb
      rw [statistics_dropEntry hf.2.1]
      by_cases hba : b = a
      · rw [if_pos hba] at hle ⊢
        rw [hba] at hle
        change (s.statistics a).totalOps - ((s.statistics a).removedOps + 1) ≤ _
        omega
      · rwa [if_neg hba] at hle ⊢
    · intro id g hg
      obtain ⟨g₀, hg₀, -, hop⟩ := hcomes hg
      rw [hsame.1, hop]
      exact hknown id g₀ hg₀
    · intro op hsome hpart
      rw [hsame.1] at hsome
      obtain ⟨id, g₀, hg₀, heq⟩ := hreferenced hpart op hsome
      by_cases hgone : g₀.account = a ∧ g₀.sequence = (s.statistics a).removedOps + 1
      · left
        have hid : id = e.1 := (hlisted a).unique _ _ _ _ _ ⟨hg₀, hgone⟩ he
        rw [hid, he.1] at hg₀
        rw [← heq, ← Option.some.inj hg₀]
      · right
        obtain ⟨g, hg, hop⟩ := hstays hg₀ hgone
        exact ⟨id, g, hg, hop.trans heq⟩
    · rw [hsame.1]
      exact hknown e.1 e.2 he.1
    · obtain ⟨g, hg, hop⟩ := hstays hath.1 (by rintro ⟨-, hseq⟩; rw [hath.2.2] at hseq; omega)
      exact ⟨athId, g, hg, hop⟩
  obtain ⟨s', hok, hinv, haccounts, hhistories, hkept⟩ := hremoved
  refine ⟨s', hok, hinv, haccounts.trans hsame.2, hkept, fun op b hnew id g hg hacc => ?_⟩
  rw [hhistories] at hg
  obtain ⟨g₀, hg₀, hacc₀, hop₀⟩ := hcomes hg
  rw [hop₀]
  exact hnew id g₀ hg₀ (hacc₀.symm.trans hacc)

/-- The new entry of an account is there, and the others are as they were. -/
theorem lookup_addEntry_cases {a opId id : ℕ} {e : AccountTransactionHistory}
    (h : (s.addEntry a opId).histories.lookup id = some e) :
    s.histories.lookup id = some e ∨ e.account = a ∧ e.operationId = opId := by
  rw [lookup_addEntry] at h
  split at h
  · obtain rfl := Option.some.inj h
    exact .inr ⟨rfl, rfl⟩
  · exact .inl h

theorem lookup_addEntry_of_lookup {a opId id : ℕ} {e : AccountTransactionHistory}
    (h : s.histories.lookup id = some e) : (s.addEntry a opId).histories.lookup id = some e := by
  rw [lookup_addEntry, if_neg]
  · exact h
  · intro hid
    rw [hid, Index.lookup_next] at h
    cases h

theorem statistics_addEntry (s : HistoryDatabase H) (a opId b : ℕ) :
    (s.addEntry a opId).statistics b = if b = a then
      { s.statistics a with
        mostRecentOp := s.histories.next
        totalOps := (s.statistics a).totalOps + 1 }
      else s.statistics b :=
  statistics_setStatistics _ _ _ _

/-- The invariant after a new entry, but for the bound of the account itself. -/
theorem HistoryInv.addEntry {fresh : Option ℕ} (h : HistoryInv p s fresh) {a opId : ℕ}
    (hfresh : fresh = none ∨ fresh = some opId) (hop : (s.operations.lookup opId).isSome = true) :
    (∀ b, (s.addEntry a opId).Listed b) ∧
    (∀ b, b ∉ p.fullHistoryAccounts → b ≠ a → ((s.addEntry a opId).statistics b).totalOps -
      ((s.addEntry a opId).statistics b).removedOps ≤ p.maxOpsPerAccount) ∧
    (∀ id e, (s.addEntry a opId).histories.lookup id = some e →
      (s.operations.lookup e.operationId).isSome = true) ∧
    (p.partialOperations = true → ∀ op, (s.operations.lookup op).isSome = true →
      ∃ id e, (s.addEntry a opId).histories.lookup id = some e ∧ e.operationId = op) := by
  refine ⟨Listed.addEntry h.listed a opId, ?_, ?_, ?_⟩
  · intro b hfull hb
    rw [statistics_addEntry, if_neg hb]
    exact h.bounded b hfull
  · intro id e he
    rcases lookup_addEntry_cases he with he | ⟨-, heq⟩
    · exact h.known id e he
    · rw [heq]
      exact hop
  · intro hpart op hsome
    rcases h.referenced hpart op hsome with heq | ⟨id, e, he, heq⟩
    · obtain rfl : op = opId := by
        rcases hfresh with hnone | hsome
        · rw [hnone] at heq
          cases heq
        · exact Option.some.inj (heq.trans hsome)
      exact ⟨s.histories.next, _, by rw [lookup_addEntry, if_pos rfl], rfl⟩
    · exact ⟨id, e, lookup_addEntry_of_lookup he, heq⟩

/-- **A new entry** for an account that exists. -/
theorem addAccountHistory_run (hmax : 0 < p.maxOpsPerAccount) {fresh : Option ℕ}
    (h : HistoryInv p s fresh) {a opId : ℕ} (hfresh : fresh = none ∨ fresh = some opId)
    (hop : (s.operations.lookup opId).isSome = true) (hnew : s.NewTo opId a) (ha : a ∈ s.accounts) :
    ∃ s', addAccountHistory p a opId s = .ok () s' ∧ HistoryInv p s' none ∧ Noted opId a s s' := by
  have hclash := clashes_eq_false (h.listed a) hnew
  obtain ⟨hlisted, hbounded, hknown, hreferenced⟩ := h.addEntry (a := a) hfresh hop
  have hstats := statistics_addEntry s a opId a
  rw [if_pos rfl] at hstats
  have hnewTo : ∀ b, b ≠ a → s.NewTo opId b → (s.addEntry a opId).NewTo opId b := by
    intro b hb hnewb id e he hacc
    rcases lookup_addEntry_cases he with he | ⟨hacc', -⟩
    · exact hnewb id e he hacc
    · exact absurd (hacc.symm.trans hacc') hb
  have hrun : addAccountHistory p a opId s =
      (if a ∈ p.fullHistoryAccounts then pure ()
        else if p.maxOpsPerAccount < ((s.addEntry a opId).statistics a).totalOps -
            ((s.addEntry a opId).statistics a).removedOps then
          removeEarliest p a s.histories.next
        else pure () : HistoryM H Unit) (s.addEntry a opId) := by
    unfold addAccountHistory
    rw [get_bind, assert, if_pos ha, pure_bind_apply, assert, if_pos hclash, pure_bind_apply,
      update_bind]
    split
    · rfl
    · rw [get_bind]
  rw [hrun]
  by_cases hfull : a ∈ p.fullHistoryAccounts
  · rw [if_pos hfull]
    refine ⟨_, rfl, ⟨hlisted, ?_, hknown, fun hpart op hsome => .inr (hreferenced hpart op hsome)⟩,
      ⟨rfl, hop, hnewTo⟩⟩
    intro b hb
    exact hbounded b hb fun heq => hb (heq ▸ hfull)
  rw [if_neg hfull]
  by_cases hmany : p.maxOpsPerAccount < ((s.addEntry a opId).statistics a).totalOps -
      ((s.addEntry a opId).statistics a).removedOps
  · rw [if_pos hmany]
    have hold := h.bounded a hfull
    have hath : (s.addEntry a opId).IsEntry a ((s.addEntry a opId).statistics a).totalOps
        s.histories.next
        { account := a, operationId := opId, sequence := (s.statistics a).totalOps + 1,
          next := (s.statistics a).mostRecentOp } := by
      refine ⟨?_, rfl, ?_⟩
      · rw [lookup_addEntry, if_pos rfl]
      · rw [hstats]
    have hbound : ∀ b, b ∉ p.fullHistoryAccounts → ((s.addEntry a opId).statistics b).totalOps -
        ((s.addEntry a opId).statistics b).removedOps ≤
          p.maxOpsPerAccount + if b = a then 1 else 0 := by
      intro b hb
      by_cases hba : b = a
      · rw [if_pos hba, hba, hstats]
        change (s.statistics a).totalOps + 1 - (s.statistics a).removedOps ≤ _
        omega
      · rw [if_neg hba]
        exact hbounded b hb hba
    obtain ⟨s', hok, hinv, haccounts, hkept, hnewTo'⟩ :=
      removeEarliest_run hlisted (by omega) hbound hknown hreferenced hath
    exact ⟨s', hok, hinv, haccounts, hkept, fun b hb hnewb => hnewTo' opId b (hnewTo b hb hnewb)⟩
  · rw [if_neg hmany]
    refine ⟨_, rfl, ⟨hlisted, ?_, hknown, fun hpart op hsome => .inr (hreferenced hpart op hsome)⟩,
      ⟨rfl, hop, hnewTo⟩⟩
    intro b hb
    by_cases hba : b = a
    · rw [hba]
      exact Nat.le_of_not_lt hmany
    · exact hbounded b hb hba

/-! ### Operations -/

/-- How a part of `update_account_histories` that needs some accounts ends: it returns, or one of the
accounts does not exist. -/
def Outcome {α : Type} (x : HistoryM H α) (s : HistoryDatabase H) (needed : List ℕ)
    (post : α → HistoryDatabase H → Prop) : Prop :=
  (∃ a s', x s = .ok a s' ∧ post a s' ∧ s'.accounts = s.accounts) ∨
    ∃ s', x s = .error .noSuchAccount s' ∧ ∃ a ∈ needed, a ∉ s.accounts

theorem Outcome.bind {α β : Type} {x : HistoryM H α} {f : α → HistoryM H β} {needed : List ℕ}
    {post : α → HistoryDatabase H → Prop} {post' : β → HistoryDatabase H → Prop}
    (hx : Outcome x s needed post) (hf : ∀ a s', post a s' → Outcome (f a) s' needed post') :
    Outcome (x >>= f) s needed post' := by
  rcases hx with ⟨a, s', hok, hpost, haccounts⟩ | ⟨s', herror, hmissing⟩
  · rcases hf a s' hpost with ⟨b, s'', hok', hpost', haccounts'⟩ | ⟨s'', herror', a', ha', hnot⟩
    · exact .inl ⟨b, s'', bind_eq_ok.mpr ⟨a, s', hok, hok'⟩, hpost', haccounts'.trans haccounts⟩
    · refine .inr ⟨s'', bind_eq_error.mpr (.inr ⟨a, s', hok, herror'⟩), a', ha', ?_⟩
      rwa [← haccounts]
  · exact .inr ⟨s', bind_eq_error.mpr (.inl herror), hmissing⟩

theorem Outcome.pure {α : Type} {a : α} {needed : List ℕ} {post : α → HistoryDatabase H → Prop}
    (h : post a s) : Outcome (pure a) s needed post :=
  .inl ⟨a, s, rfl, h, rfl⟩

theorem Outcome.mono {α : Type} {x : HistoryM H α} {needed needed' : List ℕ}
    {post post' : α → HistoryDatabase H → Prop} (h : Outcome x s needed post)
    (hneeded : needed ⊆ needed') (hpost : ∀ a s', post a s' → post' a s') :
    Outcome x s needed' post' := by
  rcases h with ⟨a, s', hok, h, haccounts⟩ | ⟨s', herror, a, ha, hnot⟩
  · exact .inl ⟨a, s', hok, hpost a s' h, haccounts⟩
  · exact .inr ⟨s', herror, a, hneeded ha, hnot⟩

/-- An operation that is there and may be noted for some accounts. -/
structure Notable (s : HistoryDatabase H) (opId : ℕ) (accounts : List ℕ) : Prop where
  known : (s.operations.lookup opId).isSome = true
  newTo : ∀ a ∈ accounts, s.NewTo opId a

theorem addAccountHistory_outcome (hmax : 0 < p.maxOpsPerAccount) {fresh : Option ℕ}
    (h : HistoryInv p s fresh) {a opId : ℕ} {rest : List ℕ}
    (hfresh : fresh = none ∨ fresh = some opId) (hop : Notable s opId (a :: rest)) (ha : a ∉ rest) :
    Outcome (addAccountHistory p a opId) s [a] fun _ s' =>
      HistoryInv p s' none ∧ Notable s' opId rest := by
  by_cases hacc : a ∈ s.accounts
  · obtain ⟨s', hok, hinv, hnoted⟩ := addAccountHistory_run hmax h hfresh hop.known
      (hop.newTo a List.mem_cons_self) hacc
    refine .inl ⟨(), s', hok, ⟨hinv, hnoted.known, fun b hb => ?_⟩, hnoted.accounts⟩
    exact hnoted.newTo b (fun heq => ha (heq ▸ hb)) (hop.newTo b (List.mem_cons_of_mem a hb))
  · refine .inr ⟨s, ?_, a, List.mem_singleton_self a, hacc⟩
    unfold addAccountHistory
    rw [get_bind]
    exact assert_bind_eq_error.mpr (.inl ⟨hacc, rfl, rfl⟩)

/-- The loop over the impacted accounts. -/
theorem forM_addAccountHistory_outcome (hmax : 0 < p.maxOpsPerAccount) {opId : ℕ} :
    ∀ (l : List ℕ) {s : HistoryDatabase H} {fresh : Option ℕ}, l.Nodup → HistoryInv p s fresh →
      fresh = none ∨ fresh = some opId → Notable s opId l →
      Outcome (l.forM fun a => addAccountHistory p a opId) s l fun _ s' =>
        HistoryInv p s' (if l = [] then fresh else none) := by
  intro l
  induction l with
  | nil =>
    intro s fresh _ h _ _
    exact Outcome.pure (by rwa [if_pos rfl])
  | cons a l ih =>
    intro s fresh hnodup h hfresh hop
    obtain ⟨ha, hnodup⟩ := List.nodup_cons.mp hnodup
    rw [if_neg (List.cons_ne_nil a l)]
    have hfirst := (addAccountHistory_outcome hmax h hfresh hop ha).mono
      (List.cons_subset_cons a (List.nil_subset l)) fun _ _ hpost => hpost
    refine hfirst.bind fun _ s' ⟨hinv, hop'⟩ => ?_
    refine (ih hnodup hinv (.inl rfl) hop').mono (List.subset_cons_self a l) fun _ s'' hpost => ?_
    rwa [ite_self] at hpost

/-- A created operation is new to every account. -/
theorem createOho_none (h : HistoryInv p s none) (o : H) :
    ∃ s', createOho o none s = .ok s.operations.next s' ∧
      HistoryInv p s' (some s.operations.next) ∧ (∀ l, Notable s' s.operations.next l) ∧
      s'.accounts = s.accounts := by
  have hnext := s.operations.lookup_next
  have hlookup := Index.lookup_create s.operations o
  refine ⟨{ s with operations := s.operations.create o }, rfl, ⟨h.listed, h.bounded, ?_, ?_⟩,
    fun l => ⟨?_, ?_⟩, rfl⟩
  · intro id e he
    change ((s.operations.create o).lookup e.operationId).isSome = true
    rw [hlookup]
    split
    · rfl
    · exact h.known id e he
  · intro hpart op hsome
    change ((s.operations.create o).lookup op).isSome = true at hsome
    rw [hlookup] at hsome
    split at hsome
    · next heq => exact .inl (congrArg some heq)
    · exact .inr ((h.referenced hpart op hsome).resolve_left fun heq => by cases heq)
  · change ((s.operations.create o).lookup s.operations.next).isSome = true
    rw [hlookup, if_pos rfl]
    rfl
  · intro a _ id e he _ heq
    have hknown := h.known id e he
    rw [heq, hnext] at hknown
    cases hknown

/-- The operation is created if it has not been. -/
theorem createOho_outcome {fresh oho : Option ℕ} {l needed : List ℕ} (h : HistoryInv p s fresh)
    (hfresh : fresh = none ∨ fresh = oho) (hoho : ∀ id, oho = some id → Notable s id l) (o : H) :
    Outcome (createOho o oho) s needed fun id s' => Notable s' id l ∧
      ∃ fresh', (fresh' = none ∨ fresh' = some id) ∧ HistoryInv p s' fresh' := by
  cases oho with
  | some id => exact Outcome.pure ⟨hoho id rfl, fresh, hfresh, h⟩
  | none =>
    rw [hfresh.elim id id] at h
    obtain ⟨s', hok, hinv, hop, haccounts⟩ := createOho_none h o
    exact .inl ⟨_, s', hok, ⟨hop l, _, .inr rfl, hinv⟩, haccounts⟩

theorem addForAll_outcome (hmax : 0 < p.maxOpsPerAccount) {oho : Option ℕ} (h : HistoryInv p s oho)
    (o : H) (hoho : ∀ id, oho = some id → Notable s id (p.impacted o)) :
    Outcome (addForAll p o oho) s (p.impacted o) fun _ s' => HistoryInv p s' oho := by
  unfold addForAll
  by_cases hnil : p.impacted o = []
  · rw [if_pos hnil]
    exact Outcome.pure h
  · rw [if_neg hnil]
    refine (createOho_outcome h (.inr rfl) hoho o).bind fun id s₁ ⟨hop, fresh, hfresh, hinv⟩ => ?_
    rw [if_pos hmax]
    refine (forM_addAccountHistory_outcome hmax _ (p.impacted_nodup o) hinv hfresh hop).bind
      fun _ s₂ hinv => Outcome.pure ?_
    rw [if_neg hnil] at hinv
    exact hinv.weaken oho

theorem addForTracked_outcome (hmax : 0 < p.maxOpsPerAccount) (o : H) :
    ∀ (l : List ℕ) {s : HistoryDatabase H} {fresh oho : Option ℕ}, l.Nodup → HistoryInv p s fresh →
      fresh = none ∨ fresh = oho → (∀ id, oho = some id → Notable s id l) →
      Outcome (addForTracked p o l oho) s (p.impacted o) fun _ s' => HistoryInv p s' fresh := by
  intro l
  induction l with
  | nil =>
    intro s fresh oho _ h _ _
    exact Outcome.pure h
  | cons a l ih =>
    intro s fresh oho hnodup h hfresh hoho
    obtain ⟨ha, hnodup⟩ := List.nodup_cons.mp hnodup
    unfold addForTracked
    by_cases himpacted : a ∈ p.impacted o
    · rw [if_pos himpacted]
      refine (createOho_outcome h hfresh hoho o).bind fun id s₁ ⟨hop, fresh', hfresh', hinv⟩ => ?_
      have hfirst := (addAccountHistory_outcome hmax hinv hfresh' hop ha).mono
        (List.cons_subset.mpr ⟨himpacted, List.nil_subset _⟩) fun _ _ hpost => hpost
      refine hfirst.bind fun _ s₂ ⟨hinv, hop'⟩ => ?_
      refine (ih hnodup hinv (.inl rfl) fun id' hid' => ?_).mono (List.Subset.refl _)
        fun _ _ hpost => hpost.weaken fresh
      obtain rfl := Option.some.inj hid'
      exact hop'
    · rw [if_neg himpacted]
      refine ih hnodup h hfresh fun id hid => ?_
      have hop := hoho id hid
      exact ⟨hop.known, fun b hb => hop.newTo b (List.mem_cons_of_mem a hb)⟩

theorem useNextId_outcome (h : HistoryInv p s none) (needed : List ℕ) :
    Outcome useNextId s needed fun _ s' => HistoryInv p s' none :=
  .inl ⟨(), _, rfl, ⟨h.listed, h.bounded, h.known, h.referenced⟩, rfl⟩

theorem addEntries_outcome (hmax : 0 < p.maxOpsPerAccount) {oho : Option ℕ} (h : HistoryInv p s oho)
    (o : H) (hoho : ∀ id, oho = some id → ∀ l, Notable s id l) :
    Outcome (addEntries p o oho) s (p.impacted o) fun _ s' => HistoryInv p s' oho := by
  unfold addEntries
  by_cases hall : p.trackedAccounts = []
  · rw [if_pos hall]
    exact addForAll_outcome hmax h o fun id hid => hoho id hid _
  · rw [if_neg hall, if_pos hmax]
    exact addForTracked_outcome hmax o _ p.tracked_nodup h (.inr rfl) fun id hid => hoho id hid _

/-- Only with `partial_operations` the operation may still be missing. -/
theorem firstOho_outcome (h : HistoryInv p s none) (o : H) (needed : List ℕ) :
    Outcome (firstOho p o) s needed fun oho s' => HistoryInv p s' oho ∧
      (∀ id, oho = some id → ∀ l, Notable s' id l) ∧ (p.partialOperations = true → oho = none) := by
  unfold firstOho
  by_cases hpart : p.partialOperations = true
  · rw [if_pos hpart]
    exact Outcome.pure ⟨h, fun id hid => (by cases hid), fun _ => rfl⟩
  · rw [if_neg hpart]
    obtain ⟨s₁, hok, hinv, hop, haccounts⟩ := createOho_none h o
    refine .inl ⟨_, s₁, bind_eq_ok.mpr ⟨_, s₁, hok, rfl⟩, ⟨hinv, ?_, fun h => absurd h hpart⟩,
      haccounts⟩
    intro id hid l
    obtain rfl := Option.some.inj hid
    exact hop l

theorem updateAccountHistory_outcome (hmax : 0 < p.maxOpsPerAccount) (h : HistoryInv p s none)
    (o : Option H) : Outcome (updateAccountHistory p o) s (o.elim [] p.impacted) fun _ s' =>
      HistoryInv p s' none := by
  cases o with
  | none => exact useNextId_outcome h []
  | some o =>
    have hmany : ¬ (p.maxOpsPerAccount = 0 ∧ p.partialOperations = true) := by omega
    unfold updateAccountHistory
    simp only [if_neg hmany, Option.elim_some]
    refine (firstOho_outcome h o _).bind fun oho s₁ ⟨hinv, hop, hnone⟩ => ?_
    refine (addEntries_outcome hmax hinv o hop).bind fun oho' s₂ hinv' => ?_
    have hinv'' : HistoryInv p s₂ none := by
      by_cases hpart : p.partialOperations = true
      · rw [hnone hpart] at hinv'
        exact hinv'
      · -- without `partial_operations` nothing is asked of an operation
        exact ⟨hinv'.listed, hinv'.bounded, hinv'.known, fun h => absurd h hpart⟩
    split
    · exact useNextId_outcome hinv'' _
    · exact Outcome.pure hinv''

theorem updateAccountHistories_outcome (hmax : 0 < p.maxOpsPerAccount) :
    ∀ (hist : List (Option H)) {s : HistoryDatabase H}, HistoryInv p s none →
      Outcome (updateAccountHistories p hist) s (hist.flatMap fun o => o.elim [] p.impacted)
        fun _ s' => HistoryInv p s' none
  | [], _, h => Outcome.pure h
  | o :: hist, _, h => by
    have hfirst := (updateAccountHistory_outcome hmax h o).mono
      (List.subset_append_left _ (hist.flatMap fun o => o.elim [] p.impacted)) fun _ _ hpost => hpost
    refine hfirst.bind fun _ s' hinv => ?_
    exact (updateAccountHistories_outcome hmax hist hinv).mono (List.subset_append_right _ _)
      fun _ _ hpost => hpost

/-! ### Runs -/

/-- The databases reached from one without histories. Accounts are created between the calls. A call
that throws is undone with its block. -/
inductive HistoryRun (p : AccountHistoryPlugin H) : HistoryDatabase H → Prop
  | empty (accounts : List ℕ) : HistoryRun p { accounts }
  | createAccount {s : HistoryDatabase H} (a : ℕ) : HistoryRun p s → HistoryRun p { s with accounts := a :: s.accounts }
  | update {s s' : HistoryDatabase H} (hist : List (Option H)) : HistoryRun p s →
      updateAccountHistories p hist s = .ok () s' → HistoryRun p s'

theorem HistoryRun.inv (hmax : 0 < p.maxOpsPerAccount) (h : HistoryRun p s) : HistoryInv p s none := by
  induction h with
  | empty accounts =>
    refine ⟨fun a => NumberedList.nil fun k id e he => ?_, fun a _ => Nat.zero_le _, ?_, ?_⟩
    · cases he.1
    · intro id e he
      cases he
    · intro _ op hsome
      cases hsome
  | createAccount a _ ih => exact ⟨ih.listed, ih.bounded, ih.known, ih.referenced⟩
  | update hist _ hok ih =>
    rcases updateAccountHistories_outcome hmax hist ih with ⟨_, s₁, hok', hinv, -⟩ | ⟨s₁, herror, -⟩
    · rw [hok] at hok'
      cases hok'
      exact hinv
    · rw [hok] at herror
      cases herror

/-- An account has no more entries than its counters say. -/
theorem HistoryDatabase.Listed.length_entries_le {a : ℕ} (h : s.Listed a) :
    (s.histories.entries.filter fun e => e.2.account = a).length ≤
      (s.statistics a).totalOps - (s.statistics a).removedOps := by
  have hnodup := nodup_entries s.histories
  refine NumberedList.length_le h (hnodup.of_map.filter _) AccountTransactionHistory.sequence
    (fun e he => ?_) fun e he f hf heq => ?_
  · obtain ⟨hmem, hacc⟩ := List.mem_filter.mp he
    exact ⟨Index.lookup_of_mem_entries hmem, of_decide_eq_true hacc, rfl⟩
  · exact List.inj_on_of_nodup_map hnodup (List.mem_filter.mp he).1 (List.mem_filter.mp hf).1 heq

section Example

/-- One entry for each account, and all operations concern the accounts 1 and 2. -/
private def shortHistory : AccountHistoryPlugin ℕ where
  tracked_nodup := List.nodup_nil
  partialOperations := true
  maxOpsPerAccount := 1
  impacted _ := [1, 2]
  impacted_nodup _ := by decide

private def noHistory : HistoryDatabase ℕ where
  accounts := [1, 2]

private def twoOperations : HistoryDatabase ℕ :=
  final (updateAccountHistories shortHistory [some 7, none, some 8]) noHistory

end Example

end FinChain.Plugins
