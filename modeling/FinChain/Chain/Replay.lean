import FinChain.Chain.Consistent

/-!
# No transaction is applied twice

The transaction index remembers a transaction until it has expired, and a transaction that has
expired is refused. The two comparisons are made at different moments of a block: the expiration
is compared with the time of the previous block, before the head moves, and entries are dropped
with the time of the new one, after it has moved. They meet without a gap because the time of the
head only grows along a chain.

`Remembered` is the invariant of a chain: its transaction ids are distinct, and the index holds
exactly those that have not expired. It holds for every chain of applied blocks
(`Applied.remembered`), so for every database reached by pushing and popping blocks, and
`no_replay` draws the conclusions.
-/

namespace FinChain.Chain

open Exec Database

variable {Op R : Type} {P : Protocol Op R} {g o : Objects R}

/-- The transactions of a chain. -/
def trxs (chain : List (SignedBlock Op × Objects R)) : List (Transaction Op) :=
  chain.flatMap fun e => e.1.transactions

/-- The transactions of a chain are distinct, and the index holds those that have not expired. -/
structure Remembered (P : Protocol Op R) (chain : List (SignedBlock Op × Objects R))
    (o : Objects R) : Prop where
  nodup : ((trxs chain).map P.trxId).Nodup
  index : ∀ e, e ∈ o.transactions ↔ e ∈ (trxs chain).map (entry P) ∧ o.time ≤ e.2

/-- The id of a transaction determines its expiration, which is hashed with the rest of it. -/
def HashesExpiration (P : Protocol Op R) : Prop :=
  ∀ trx trx', P.trxId trx = P.trxId trx' → trx.expiration = trx'.expiration

/-- A transaction of the chain is in the index or has expired. -/
theorem Remembered.mem_index {chain : List (SignedBlock Op × Objects R)}
    (h : Remembered P chain o) {trx : Transaction Op} (hmem : trx ∈ trxs chain)
    (hexp : o.time ≤ trx.expiration) : P.trxId trx ∈ o.transactions.map Prod.fst :=
  List.mem_map.mpr ⟨entry P trx, (h.index _).mpr ⟨List.mem_map_of_mem hmem, hexp⟩, rfl⟩

theorem Remembered.block {chain : List (SignedBlock Op × Objects R)} {b : SignedBlock Op}
    {o' : Objects R} (hid : HashesExpiration P) (h : Remembered P chain o)
    (hpos : chain ≠ [] → 0 < o.headBlockNumber) (hb : BlockApplied P b o o') :
    Remembered P ((b, o) :: chain) o' := by
  have htrxs : trxs ((b, o) :: chain) = b.transactions ++ trxs chain := List.flatMap_cons
  refine ⟨?_, fun e => ?_⟩
  · rw [htrxs, List.map_append, List.nodup_append]
    refine ⟨hb.nodup, h.nodup, ?_⟩
    intro id hnew id' hold
    rintro rfl
    obtain ⟨trx, htrx, rfl⟩ := List.mem_map.mp hnew
    obtain ⟨trx', htrx', heq⟩ := List.mem_map.mp hold
    obtain ⟨hnot, htime⟩ := hb.accepted trx htrx
    have hne : chain ≠ [] := by
      rintro rfl
      exact absurd htrx' (by simp [trxs])
    -- the block was checked against the time at which the old transaction would be dropped
    have hlive : o.time ≤ trx'.expiration := by
      rw [hid trx' trx heq]
      exact htime (hpos hne)
    exact hnot (heq ▸ h.mem_index htrx' hlive)
  · rw [hb.transactions, htrxs, hb.time, List.mem_filter, List.mem_append, List.mem_reverse,
      List.map_append, List.mem_append, decide_eq_true_eq, h.index e]
    have hlt := hb.time_lt
    constructor
    · rintro ⟨hmem | ⟨hmem, -⟩, htime⟩
      · exact ⟨.inl hmem, htime⟩
      · exact ⟨.inr hmem, htime⟩
    · rintro ⟨hmem | hmem, htime⟩
      · exact ⟨.inl hmem, htime⟩
      · exact ⟨.inr ⟨hmem, by omega⟩, htime⟩

/-- **Every chain remembers its transactions.** -/
theorem Applied.remembered (hg : Genesis g) (hid : HashesExpiration P)
    {chain : List (SignedBlock Op × Objects R)} (h : Applied P g chain o) :
    Remembered P chain o := by
  induction h with
  | genesis =>
    refine ⟨List.nodup_nil, fun e => ?_⟩
    rw [hg.transactions]
    simp [trxs]
  | block hc hb ih =>
    refine ih.block hid (fun hne => ?_) hb.blockApplied
    rw [(hc.headBlockNumber hg).1]
    exact List.length_pos_iff.mpr hne

/-! ### Runs -/

/-- The databases reached from genesis by calls of `push_block` and `pop_block`, whether they
return or throw. -/
inductive Reachable (P : Protocol Op R) (g : Objects R) : Database Op R → Prop
  | genesis : Reachable P g (genesis g)
  | pushBlock {s} (b : SignedBlock Op) : Reachable P g s →
      Reachable P g (final (pushBlock P b) s)
  | popBlock {s} : Reachable P g s → Reachable P g (final (popBlock P) s)

theorem Reachable.consistent {s : Database Op R} (h : Reachable P g s) : Consistent P g s := by
  induction h with
  | genesis => exact .genesis P g
  | pushBlock b _ ih => exact ih.pushBlock b
  | popBlock _ ih => exact Consistent.keeps_popBlock _ ih

/-- A transaction with the id of one of the chain, or of one applied since, is in the index or has
expired, and is refused. -/
theorem applyTransaction_of_applied (hid : HashesExpiration P) {s s' : Database Op R}
    (hpos : s.chain ≠ [] → 0 < s.objects.headBlockNumber)
    (h : Remembered P s.chain s.objects) {since : List (Transaction Op)} {u : PUnit}
    (hsince : since.forM (applyTransaction P) s = .ok u s') {trx trx' : Transaction Op}
    (hmem : trx' ∈ trxs s.chain ++ since) (heq : P.trxId trx = P.trxId trx') :
    (P.trxId trx ∈ s'.objects.transactions.map Prod.fst ∨ trx.expiration < s'.objects.time) ∧
      ∃ e s'', applyTransaction P trx s' = .error e s'' := by
  obtain ⟨-, -, hsame⟩ := applyTransactions_ok hsince
  have hindex : s'.objects.transactions =
      (since.map (entry P)).reverse ++ s.objects.transactions := hsame.transactions
  have htime : s'.objects.time = s.objects.time := hsame.time
  have hnumber : s'.objects.headBlockNumber = s.objects.headBlockNumber := hsame.headBlockNumber
  have hcases : P.trxId trx ∈ s'.objects.transactions.map Prod.fst ∨
      (trx.expiration < s'.objects.time ∧ 0 < s'.objects.headBlockNumber) := by
    rw [hindex, List.map_append, List.mem_append, heq, htime, hnumber, hid trx trx' heq]
    rcases List.mem_append.mp hmem with hmem | hmem
    · have hne : s.chain ≠ [] := by
        intro hnil
        rw [hnil] at hmem
        exact absurd hmem (by simp [trxs])
      rcases Nat.lt_or_ge trx'.expiration s.objects.time with hlt | hge
      · exact .inr ⟨hlt, hpos hne⟩
      · exact .inl (.inr (h.mem_index hmem hge))
    · refine .inl (.inl (List.mem_map.mpr ⟨entry P trx', ?_, rfl⟩))
      exact List.mem_reverse.mpr (List.mem_map_of_mem hmem)
  refine ⟨hcases.imp_right And.left, ?_⟩
  cases happly : applyTransaction P trx s' with
  | error e s'' => exact ⟨e, s'', rfl⟩
  | ok _ s'' =>
    obtain ⟨hnot, hexp, -⟩ := applyTransaction_ok happly
    rcases hcases with hin | ⟨hlt, hnum⟩
    · exact absurd hin hnot
    · exact absurd (hexp hnum).2 (by omega)

/-- **No replay.** On every chain reached by pushing and popping blocks, and on each of its
prefixes, no transaction id occurs twice; a transaction of the chain is refused at every later
point, also while further transactions are being applied on top, because its id is still in the
index or because it has expired; and the ids refused as duplicates
at the head are exactly those of the chain that have not expired. -/
theorem no_replay (hg : Genesis g) (hid : HashesExpiration P) {s : Database Op R}
    (h : Reachable P g s) :
    (∀ chain, chain <:+ s.chain → ((trxs chain).map P.trxId).Nodup) ∧
    (∀ (since : List (Transaction Op)) u s', since.forM (applyTransaction P) s = .ok u s' →
      ∀ trx' ∈ trxs s.chain ++ since, ∀ trx, P.trxId trx = P.trxId trx' →
        (P.trxId trx ∈ s'.objects.transactions.map Prod.fst ∨
          trx.expiration < s'.objects.time) ∧
        ∃ e s'', applyTransaction P trx s' = .error e s'') ∧
    ∀ id, id ∈ s.objects.transactions.map Prod.fst ↔
      ∃ trx ∈ trxs s.chain, P.trxId trx = id ∧ s.objects.time ≤ trx.expiration := by
  have happlied := h.consistent.applied
  have hrem := happlied.remembered hg hid
  refine ⟨fun chain hsuffix => ?_, fun since u s' hsince trx' hmem trx heq => ?_, fun id => ?_⟩
  · obtain ⟨newer, hnewer⟩ := hsuffix
    have hnodup := hrem.nodup
    rw [← hnewer, trxs, List.flatMap_append, List.map_append] at hnodup
    exact (List.nodup_append.mp hnodup).2.1
  · refine applyTransaction_of_applied hid (fun hne => ?_) hrem hsince hmem heq
    rw [(happlied.headBlockNumber hg).1]
    exact List.length_pos_iff.mpr hne
  · constructor
    · intro hmem
      obtain ⟨e, he, rfl⟩ := List.mem_map.mp hmem
      obtain ⟨hchain, htime⟩ := (hrem.index e).mp he
      obtain ⟨trx, htrx, rfl⟩ := List.mem_map.mp hchain
      exact ⟨trx, htrx, rfl, htime⟩
    · rintro ⟨trx, htrx, rfl, htime⟩
      exact hrem.mem_index htrx htime

section Example

private def transfer : Transaction ℕ where
  refBlockNum := 0
  refBlockPrefix := 0
  expiration := 10
  operations := [1]
  signatures := []

private def transferBlock : SignedBlock ℕ :=
  { SignedBlock.empty .zero 5 1 with transactionMerkleRoot := 1, transactions := [transfer] }

/-- A transaction of the first block is refused after it. -/
theorem no_replay_of_first_block :
    Genesis (Protocol.permissiveGenesis [0]) ∧ HashesExpiration Protocol.permissive ∧
      trxs (final (pushBlock .permissive transferBlock)
        (genesis (Protocol.permissiveGenesis [0]))).chain = [transfer] ∧
      ∃ e s, applyTransaction .permissive transfer (final (pushBlock .permissive transferBlock)
        (genesis (Protocol.permissiveGenesis [0]))) = .error e s := by
  have hg : Genesis (Protocol.permissiveGenesis [0]) := ⟨rfl, rfl, rfl⟩
  have hid : HashesExpiration Protocol.permissive := fun trx trx' h => (Nat.pair_eq_pair.mp h).1
  have htrxs : trxs (final (pushBlock .permissive transferBlock)
      (genesis (Protocol.permissiveGenesis [0]))).chain = [transfer] := by rfl
  refine ⟨hg, hid, htrxs, ?_⟩
  refine ((no_replay hg hid (.pushBlock transferBlock .genesis)).2.1 [] ⟨⟩ _ rfl transfer ?_
    transfer rfl).2
  rw [htrxs]
  exact List.mem_singleton.mpr rfl

end Example

end FinChain.Chain
