import FinChain.Lib.PairTree
import Mathlib.Data.Nat.Pairing
import Mathlib.Algebra.Ring.Nat

/-!
# The Merkle root of a block

The header of a block has a root over the transactions of the block. `calculate_merkle_root` writes the digests
of the transactions into one array and then hashes them in pairs in the same array, where the pair at `2k` and
`2k + 1` goes to `k`, until one is left. An odd last digest is moved to the next level as it is.

The positions in the array are counted in `uint32_t`, while the number of digests is a `size_type`. Up to
`2 ^ 32 - 1` transactions the loops end and give the digest that the rounds of `foldPairs` give
(`calculateMerkleRoot_eq`). From `2 ^ 32` transactions on, the first loop never ends (`fillIds_never_ends`).

The hash functions are parameters. If they have no collisions, and no digest of a transaction is the hash of a
pair, the root comes from one list of transactions only: neither an odd digest that is moved up nor the length,
which is not part of what is hashed, makes room for another one.
-/

namespace FinChain.Chain

variable {Transaction Digest Checksum : Type}

/-- The hash functions of the root. -/
structure MerkleHashes (Transaction Digest Checksum : Type) where
  /-- `processed_transaction::merkle_digest` -/
  merkleDigest : Transaction → Digest
  /-- `digest_type::hash` of a `std::pair` of digests -/
  hashPair : Digest → Digest → Digest
  /-- `checksum_type::hash` -/
  hash : Digest → Checksum
  /-- `digest_type()` -/
  noDigest : Digest
  /-- `checksum_type()` -/
  noChecksum : Checksum

/-- Why a run has no root. -/
inductive NoRoot
  /-- A loop has not ended within the steps it was given. -/
  | unfinished
  /-- A position outside of the array is read or written. -/
  | outOfRange
  deriving DecidableEq, Repr

/-- The value of a number as a `uint32_t`. -/
def uint32 (n : ℕ) : ℕ := n % 2 ^ 32

theorem uint32_of_lt {n : ℕ} (h : n < 2 ^ 32) : uint32 n = n := Nat.mod_eq_of_lt h

/-- `ids[i]` -/
def readId (ids : List Digest) (i : ℕ) : Except NoRoot Digest :=
  match ids[i]? with
  | some id => .ok id
  | none => .error .outOfRange

/-- `ids[i] = id` -/
def writeId (ids : List Digest) (i : ℕ) (id : Digest) : Except NoRoot (List Digest) :=
  if i < ids.length then .ok (ids.set i id) else .error .outOfRange

namespace MerkleHashes

variable (H : MerkleHashes Transaction Digest Checksum)

/-- The loop that writes the digests of the transactions, with the counter `i`. -/
def fillIds (transactions : List Transaction) : ℕ → ℕ → List Digest → Except NoRoot (List Digest)
  | 0, _, _ => .error .unfinished
  | fuel + 1, i, ids =>
    if i < transactions.length then
      match transactions[i]? with
      | none => .error .outOfRange
      | some transaction => do
        let ids ← writeId ids i (H.merkleDigest transaction)
        fillIds transactions fuel (uint32 (i + 1)) ids
    else .ok ids

/-- The loop over the pairs of a level, with the counters `i` and `k`. -/
def hashPairs (iMax : ℕ) : ℕ → ℕ → ℕ → List Digest → Except NoRoot (ℕ × List Digest)
  | 0, _, _, _ => .error .unfinished
  | fuel + 1, i, k, ids =>
    if i < iMax then do
      let left ← readId ids i
      let right ← readId ids (uint32 (i + 1))
      let ids ← writeId ids k (H.hashPair left right)
      hashPairs iMax fuel (uint32 (i + 2)) (uint32 (k + 1)) ids
    else .ok (k, ids)

/-- The loop over the levels. -/
def hashLevels : ℕ → ℕ → List Digest → Except NoRoot (List Digest)
  | 0, _, _ => .error .unfinished
  | fuel + 1, currentNumberOfHashes, ids =>
    if 1 < currentNumberOfHashes then do
      let iMax := uint32 (currentNumberOfHashes - currentNumberOfHashes % 2)
      let (k, ids) ← H.hashPairs iMax fuel 0 0 ids
      if currentNumberOfHashes % 2 = 1 then
        let last ← readId ids iMax
        let ids ← writeId ids k last
        hashLevels fuel (uint32 (k + 1)) ids
      else hashLevels fuel k ids
    else .ok ids

/-- `calculate_merkle_root`, where no loop takes more than `fuel` steps. -/
def calculateMerkleRoot (fuel : ℕ) (transactions : List Transaction) : Except NoRoot Checksum :=
  if transactions.length = 0 then .ok H.noChecksum
  else do
    let ids ← H.fillIds transactions fuel 0 (List.replicate transactions.length H.noDigest)
    let ids ← H.hashLevels fuel ids.length ids
    let id ← readId ids 0
    .ok (H.hash id)

/-! ### The array -/

theorem readId_append {front back : List Digest} {id : Digest} {i : ℕ} (h : i = front.length) :
    readId (front ++ id :: back) i = .ok id := by
  rw [readId, h, List.getElem?_append_right le_rfl, Nat.sub_self, List.getElem?_cons_zero]

theorem writeId_append {front back : List Digest} {old id : Digest} {i : ℕ} (h : i = front.length) :
    writeId (front ++ old :: back) i id = .ok (front ++ id :: back) := by
  have hin : i < (front ++ old :: back).length := by
    rw [List.length_append, List.length_cons, h]
    exact Nat.lt_add_of_pos_right (Nat.succ_pos _)
  rw [writeId, if_pos hin, h, List.set_append_right _ _ le_rfl, Nat.sub_self, List.set_cons_zero]

/-! ### The digests of the transactions -/

/-- The loop after the transactions in `done`. The digests of `todo` are still to be written. -/
theorem fillIds_eq : ∀ (done todo : List Transaction) (junk : List Digest) (fuel : ℕ),
    (done ++ todo).length < 2 ^ 32 → junk.length = todo.length → todo.length < fuel →
      H.fillIds (done ++ todo) fuel done.length (done.map H.merkleDigest ++ junk) =
        .ok ((done ++ todo).map H.merkleDigest)
  | _, _, _, 0, _, _, hfuel => absurd hfuel (Nat.not_lt_zero _)
  | done, [], junk, fuel + 1, _, hjunk, _ => by
    have hend : ¬ done.length < (done ++ []).length := by simp
    have hempty : junk = [] := List.length_eq_zero_iff.mp hjunk
    rw [fillIds, if_neg hend, hempty, List.append_nil, List.append_nil]
  | _, _ :: _, [], _, _, hjunk, _ => absurd hjunk (by simp)
  | done, transaction :: todo, old :: junk, fuel + 1, hlt, hjunk, hfuel => by
    have hmore : done.length < (done ++ transaction :: todo).length := by simp
    have hget : (done ++ transaction :: todo)[done.length]? = some transaction := by simp
    have hwrite : writeId (done.map H.merkleDigest ++ old :: junk) done.length (H.merkleDigest transaction) =
        .ok (done.map H.merkleDigest ++ H.merkleDigest transaction :: junk) :=
      writeId_append (List.length_map H.merkleDigest).symm
    -- the counter does not wrap, as it is at most the number of transactions
    have hcounter : uint32 (done.length + 1) = (done ++ [transaction]).length := by
      rw [uint32_of_lt (lt_of_le_of_lt hmore hlt), List.length_append, List.length_singleton]
    have hrest := fillIds_eq (done ++ [transaction]) todo junk fuel
      (by simpa using hlt) (by simpa using hjunk) (by simpa using hfuel)
    rw [fillIds, if_pos hmore, hget]
    show (writeId _ _ _ >>= fun ids => H.fillIds _ fuel (uint32 (done.length + 1)) ids) = _
    rw [hwrite, hcounter]
    show H.fillIds _ fuel _ _ = _
    simpa using hrest

/-- **The loop never ends** when there are more transactions than the counter has values. -/
theorem fillIds_never_ends {transactions : List Transaction} (hmany : 2 ^ 32 ≤ transactions.length) :
    ∀ (fuel i : ℕ) (ids : List Digest), i < 2 ^ 32 → ids.length = transactions.length →
      H.fillIds transactions fuel i ids = .error .unfinished
  | 0, _, _, _, _ => rfl
  | fuel + 1, i, ids, hi, hids => by
    have hmore : i < transactions.length := hi.trans_le hmany
    have hget : transactions[i]? = some transactions[i] := List.getElem?_eq_getElem hmore
    have hwrite : writeId ids i (H.merkleDigest transactions[i]) =
        .ok (ids.set i (H.merkleDigest transactions[i])) := if_pos (hids ▸ hmore)
    rw [fillIds, if_pos hmore, hget]
    show (writeId _ _ _ >>= fun ids => H.fillIds _ fuel (uint32 (i + 1)) ids) = _
    rw [hwrite]
    apply fillIds_never_ends hmany
    · exact Nat.mod_lt _ (Nat.two_pow_pos 32)
    · rw [List.length_set, hids]

/-! ### A level -/

/-- The loop over the pairs when the digests in `done` are written. The pairs in `todo` come after what is no longer
needed, and are joined before one of them is overwritten. -/
theorem hashPairs_eq (rest : List Digest) {iMax : ℕ} (hlt : iMax < 2 ^ 32) :
    ∀ (todo done junk : List Digest) (fuel : ℕ), done.length = junk.length → todo.length % 2 = 0 →
      iMax = done.length + junk.length + todo.length → todo.length < fuel →
      ∃ junk', junk'.length = done.length + todo.length / 2 ∧
        H.hashPairs iMax fuel (done.length + junk.length) done.length (done ++ (junk ++ (todo ++ rest))) =
          .ok (done.length + todo.length / 2,
            done ++ (PairTree.pairUp H.hashPair todo ++ (junk' ++ rest)))
  | _, _, _, 0, _, _, _, hfuel => absurd hfuel (Nat.not_lt_zero _)
  | [], done, junk, fuel + 1, hdone, _, hmax, _ => by
    refine ⟨junk, by simp [hdone], ?_⟩
    have hend : ¬ done.length + junk.length < iMax := by
      rw [hmax]
      exact lt_irrefl _
    rw [hashPairs, if_neg hend]
    simp [PairTree.pairUp]
  | [_], _, _, _, _, heven, _, _ => absurd heven (by simp)
  | left :: right :: todo, done, junk, fuel + 1, hdone, heven, hmax, hfuel => by
    simp only [List.length_cons] at heven hmax hfuel
    have hmore : done.length + junk.length < iMax := by omega
    -- the position that is written is the first one that is no longer needed
    obtain ⟨old, junk', hjunk⟩ : ∃ old junk', junk ++ [left, right] = old :: junk' := by
      cases junk with
      | nil => exact ⟨left, [right], rfl⟩
      | cons old junk => exact ⟨old, junk ++ [left, right], rfl⟩
    have hlen : junk'.length = junk.length + 1 := by
      have := congrArg List.length hjunk
      simpa using this.symm
    have hreadLeft : readId (done ++ (junk ++ (left :: right :: todo ++ rest))) (done.length + junk.length) =
        .ok left := by
      rw [← List.append_assoc]
      exact readId_append (by simp)
    have hreadRight : readId (done ++ (junk ++ (left :: right :: todo ++ rest)))
        (uint32 (done.length + junk.length + 1)) = .ok right := by
      have hassoc : done ++ (junk ++ (left :: right :: todo ++ rest)) =
          (done ++ (junk ++ [left])) ++ right :: (todo ++ rest) := by simp
      rw [uint32_of_lt (by omega), hassoc]
      exact readId_append (by simp [Nat.add_assoc])
    have hwrite : writeId (done ++ (junk ++ (left :: right :: todo ++ rest))) done.length (H.hashPair left right) =
        .ok ((done ++ [H.hashPair left right]) ++ (junk' ++ (todo ++ rest))) := by
      have hassoc : junk ++ (left :: right :: todo ++ rest) = old :: (junk' ++ (todo ++ rest)) := by
        rw [← List.cons_append, ← hjunk]
        simp
      rw [hassoc, writeId_append rfl]
      simp
    have hi : uint32 (done.length + junk.length + 2) =
        (done ++ [H.hashPair left right]).length + junk'.length := by
      rw [uint32_of_lt (by omega), List.length_append, List.length_singleton]
      omega
    have hk : uint32 (done.length + 1) = (done ++ [H.hashPair left right]).length := by
      rw [uint32_of_lt (by omega), List.length_append, List.length_singleton]
    obtain ⟨junk'', hlen'', hrun⟩ := hashPairs_eq rest hlt todo
      (done ++ [H.hashPair left right]) junk' fuel (by simp; omega) (by omega) (by simp; omega) (by omega)
    have hcount : (done ++ [H.hashPair left right]).length + todo.length / 2 =
        done.length + (left :: right :: todo).length / 2 := by
      simp only [List.length_append, List.length_cons, List.length_nil]
      omega
    refine ⟨junk'', hlen''.trans hcount, ?_⟩
    rw [hashPairs, if_pos hmore, hreadLeft]
    show (readId _ _ >>= fun right => writeId _ _ (H.hashPair left right) >>= fun ids =>
      H.hashPairs iMax fuel _ _ ids) = _
    rw [hreadRight]
    show (writeId _ _ _ >>= fun ids => H.hashPairs iMax fuel _ _ ids) = _
    rw [hwrite, hi, hk]
    show H.hashPairs iMax fuel _ _ _ = _
    rw [hrun, hcount]
    simp [PairTree.pairUp]

/-- The pairs of a level, from its beginning. -/
theorem hashPairs_level {level : List Digest} (rest : List Digest) {fuel : ℕ} (heven : level.length % 2 = 0)
    (hlt : level.length < 2 ^ 32) (hfuel : level.length < fuel) :
    ∃ junk, junk.length = (PairTree.pairUp H.hashPair level).length ∧
      H.hashPairs level.length fuel 0 0 (level ++ rest) =
        .ok ((PairTree.pairUp H.hashPair level).length, PairTree.pairUp H.hashPair level ++ (junk ++ rest)) := by
  obtain ⟨junk, hlen, hrun⟩ := H.hashPairs_eq rest hlt level [] [] fuel rfl heven (by simp) hfuel
  have hk : ([] : List Digest).length + level.length / 2 = (PairTree.pairUp H.hashPair level).length := by
    rw [PairTree.length_pairUp, List.length_nil]
    omega
  rw [hk] at hlen hrun
  exact ⟨junk, hlen, hrun⟩

theorem hashLevels_even {level : List Digest} (junk : List Digest) {fuel : ℕ} (hlong : 1 < level.length)
    (heven : level.length % 2 = 0) (hlt : level.length < 2 ^ 32) (hfuel : level.length < fuel) :
    ∃ junk', H.hashLevels (fuel + 1) level.length (level ++ junk) =
      H.hashLevels fuel (PairTree.pairUp H.hashPair level).length (PairTree.pairUp H.hashPair level ++ junk') := by
  have hmax : uint32 (level.length - level.length % 2) = level.length := by
    rw [heven, Nat.sub_zero, uint32_of_lt hlt]
  obtain ⟨junk', -, hpairs⟩ := H.hashPairs_level junk heven hlt hfuel
  refine ⟨junk' ++ junk, ?_⟩
  rw [hashLevels, if_pos hlong, hmax]
  show (H.hashPairs level.length fuel 0 0 (level ++ junk) >>= _) = _
  rw [hpairs]
  show (if level.length % 2 = 1 then _ else H.hashLevels fuel _ _) = _
  rw [if_neg (by omega)]

/-- A level with an odd last digest, which is moved to the end of the next one. -/
theorem hashLevels_odd {front : List Digest} (last : Digest) (junk : List Digest) (fuel : ℕ) (hne : front ≠ [])
    (heven : front.length % 2 = 0) (hlt : front.length < 2 ^ 32) (hfuel : front.length < fuel) :
    ∃ junk', H.hashLevels (fuel + 1) (front.length + 1) (front ++ last :: junk) =
      H.hashLevels fuel ((PairTree.pairUp H.hashPair front).length + 1)
        (PairTree.pairUp H.hashPair front ++ last :: junk') := by
  have hpos : 0 < front.length := List.length_pos_of_ne_nil hne
  have hodd : (front.length + 1) % 2 = 1 := by omega
  have hmax : uint32 (front.length + 1 - (front.length + 1) % 2) = front.length := by
    rw [hodd, Nat.add_sub_cancel, uint32_of_lt hlt]
  obtain ⟨junk', hlen, hpairs⟩ := H.hashPairs_level (last :: junk) heven hlt hfuel
  have hhalf := PairTree.length_pairUp H.hashPair front
  have hread : readId (PairTree.pairUp H.hashPair front ++ (junk' ++ last :: junk)) front.length = .ok last := by
    rw [← List.append_assoc]
    apply readId_append
    rw [List.length_append, hlen, hhalf]
    omega
  -- there is a pair, so the position behind the new digests is one that is no longer needed
  obtain ⟨old, junk'', hold⟩ : ∃ old junk'', junk' = old :: junk'' :=
    List.exists_cons_of_length_pos (by omega)
  have hwrite : writeId (PairTree.pairUp H.hashPair front ++ (junk' ++ last :: junk))
      (PairTree.pairUp H.hashPair front).length last =
        .ok (PairTree.pairUp H.hashPair front ++ last :: (junk'' ++ last :: junk)) := by
    rw [hold, List.cons_append, writeId_append rfl]
  have hcount : uint32 ((PairTree.pairUp H.hashPair front).length + 1) =
      (PairTree.pairUp H.hashPair front).length + 1 := uint32_of_lt (by omega)
  refine ⟨junk'' ++ last :: junk, ?_⟩
  rw [hashLevels, if_pos (by omega), hmax]
  show (H.hashPairs front.length fuel 0 0 (front ++ last :: junk) >>= _) = _
  rw [hpairs]
  show (if (front.length + 1) % 2 = 1 then (readId _ front.length >>= _) else H.hashLevels fuel _ _) = _
  rw [if_pos hodd, hread]
  show (writeId _ (PairTree.pairUp H.hashPair front).length last >>= _) = _
  rw [hwrite, hcount]
  rfl

/-- A level becomes the next one, and what it no longer needs stays behind it. -/
theorem hashLevels_round {level : List Digest} (junk : List Digest) {fuel : ℕ} (hlong : 1 < level.length)
    (hlt : level.length < 2 ^ 32) (hfuel : level.length < fuel) :
    ∃ junk', H.hashLevels (fuel + 1) level.length (level ++ junk) =
      H.hashLevels fuel (PairTree.pairUp H.hashPair level).length (PairTree.pairUp H.hashPair level ++ junk') := by
  rcases Nat.mod_two_eq_zero_or_one level.length with heven | hodd
  · exact H.hashLevels_even junk hlong heven hlt hfuel
  · obtain ⟨front, last, rfl⟩ : ∃ front last, level = front ++ [last] :=
      ⟨_, _, (List.dropLast_append_getLast (List.ne_nil_of_length_pos (by omega))).symm⟩
    rw [List.length_append, List.length_singleton] at hlong hlt hfuel hodd
    have heven : front.length % 2 = 0 := by omega
    have hup : PairTree.pairUp H.hashPair (front ++ [last]) = PairTree.pairUp H.hashPair front ++ [last] :=
      PairTree.pairUp_append H.hashPair [last] heven
    obtain ⟨junk', hrun⟩ := H.hashLevels_odd last junk fuel (List.ne_nil_of_length_pos (by omega)) heven (by omega) (by omega)
    refine ⟨junk', ?_⟩
    rw [hup]
    simpa using hrun

/-- The loop over the levels leaves the result of the rounds at the first position. -/
theorem hashLevels_eq (level : List Digest) : ∀ (junk : List Digest) {fuel : ℕ} {id : Digest},
    level.length < 2 ^ 32 → level.length + 1 < fuel → PairTree.foldPairs H.hashPair level = some id →
      ∃ junk', H.hashLevels fuel level.length (level ++ junk) = .ok (id :: junk') := by
  induction level using PairTree.rounds_induction H.hashPair with
  | nil =>
    intro junk fuel id _ _ hid
    rw [PairTree.foldPairs_nil] at hid
    exact absurd hid (by simp)
  | singleton a =>
    intro junk fuel id _ hfuel hid
    rw [PairTree.foldPairs_singleton, Option.some.injEq] at hid
    obtain ⟨fuel, rfl⟩ : ∃ n, fuel = n + 1 := ⟨fuel - 1, by omega⟩
    refine ⟨junk, ?_⟩
    rw [hashLevels, if_neg (by simp), hid]
    rfl
  | round level hlong ih =>
    intro junk fuel id hlt hfuel hid
    obtain ⟨fuel, rfl⟩ : ∃ n, fuel = n + 1 := ⟨fuel - 1, by omega⟩
    have hhalf : (PairTree.pairUp H.hashPair level).length < level.length := by
      rw [PairTree.length_pairUp]
      omega
    obtain ⟨junk', hround⟩ := H.hashLevels_round junk hlong hlt (Nat.lt_of_succ_lt_succ hfuel)
    rw [hround]
    apply ih
    · exact hhalf.trans hlt
    · omega
    · rw [PairTree.foldPairs_pairUp, hid]

/-! ### The root -/

/-- The root that is meant: the digests are joined in pairs until one is left, and that one is hashed. -/
def pairedRoot (transactions : List Transaction) : Option Checksum :=
  (PairTree.foldPairs H.hashPair (transactions.map H.merkleDigest)).map H.hash

/-- `calculate_merkle_root` returns a root. -/
def Returns (transactions : List Transaction) (root : Checksum) : Prop :=
  ∃ least, ∀ fuel, least ≤ fuel → H.calculateMerkleRoot fuel transactions = .ok root

theorem calculateMerkleRoot_eq {transactions : List Transaction} (hne : transactions ≠ [])
    (hfew : transactions.length < 2 ^ 32) (fuel : ℕ) (hfuel : transactions.length + 1 < fuel) :
    ∃ root, H.pairedRoot transactions = some root ∧ H.calculateMerkleRoot fuel transactions = .ok root := by
  have hmap : transactions.map H.merkleDigest ≠ [] := by simpa using hne
  obtain ⟨id, hid⟩ := Option.isSome_iff_exists.mp ((PairTree.foldPairs_isSome H.hashPair _).mpr hmap)
  have hfill : H.fillIds transactions fuel 0 (List.replicate transactions.length H.noDigest) =
      .ok (transactions.map H.merkleDigest) :=
    H.fillIds_eq [] transactions _ fuel hfew List.length_replicate (by omega)
  obtain ⟨junk, hlevels⟩ := H.hashLevels_eq (transactions.map H.merkleDigest) []
    (by simpa using hfew) (by simpa using hfuel) hid
  refine ⟨H.hash id, ?_, ?_⟩
  · rw [pairedRoot, hid, Option.map_some]
  · rw [calculateMerkleRoot, if_neg (by simpa using hne), hfill]
    show (H.hashLevels fuel _ (transactions.map H.merkleDigest) >>= fun ids => readId ids 0 >>= _) = _
    rw [List.append_nil] at hlevels
    rw [hlevels]
    rfl

/-- With more transactions than a `uint32_t` counts there is no root. -/
theorem calculateMerkleRoot_never_ends {transactions : List Transaction} (hmany : 2 ^ 32 ≤ transactions.length)
    (fuel : ℕ) : H.calculateMerkleRoot fuel transactions = .error .unfinished := by
  have hpos : 0 < transactions.length := (Nat.two_pow_pos 32).trans_le hmany
  rw [calculateMerkleRoot, if_neg (Nat.ne_of_gt hpos),
    H.fillIds_never_ends hmany fuel 0 _ (Nat.two_pow_pos 32) List.length_replicate]
  rfl

theorem returns_iff {transactions : List Transaction} (hne : transactions ≠ []) {root : Checksum} :
    H.Returns transactions root ↔ transactions.length < 2 ^ 32 ∧ H.pairedRoot transactions = some root := by
  constructor
  · rintro ⟨least, hrun⟩
    by_cases hfew : transactions.length < 2 ^ 32
    · obtain ⟨root', hpaired, hrun'⟩ := H.calculateMerkleRoot_eq hne hfew
        (max least (transactions.length + 2)) (Nat.lt_of_lt_of_le (Nat.lt_succ_self _) (le_max_right _ _))
      rw [hrun _ (le_max_left _ _), Except.ok.injEq] at hrun'
      exact ⟨hfew, hrun' ▸ hpaired⟩
    · have hend := H.calculateMerkleRoot_never_ends (not_lt.mp hfew) least
      rw [hrun least le_rfl] at hend
      exact absurd hend (by simp)
  · rintro ⟨hfew, hpaired⟩
    refine ⟨transactions.length + 2, fun fuel hfuel => ?_⟩
    obtain ⟨root', hpaired', hrun⟩ := H.calculateMerkleRoot_eq hne hfew fuel hfuel
    rw [hpaired, Option.some.injEq] at hpaired'
    rw [hrun, hpaired']

theorem returns_nil {root : Checksum} : H.Returns [] root ↔ root = H.noChecksum := by
  have hempty : ∀ fuel, H.calculateMerkleRoot fuel [] = .ok H.noChecksum := fun _ => rfl
  constructor
  · rintro ⟨least, hrun⟩
    exact Except.ok.inj ((hrun least le_rfl).symm.trans (hempty least))
  · rintro rfl
    exact ⟨0, fun fuel _ => hempty fuel⟩

/-! ### What the root commits to -/

/-- The hashes have no collisions, and no digest of a transaction is the hash of a pair. -/
structure CollisionFree : Prop where
  merkleDigest : Function.Injective H.merkleDigest
  hashPair : Function.Injective2 H.hashPair
  hash : Function.Injective H.hash
  leaf_ne_pair : ∀ transaction left right, H.merkleDigest transaction ≠ H.hashPair left right

variable {H}

/-- Two lists with one root are the same. -/
theorem pairedRoot_injective (hfree : H.CollisionFree) {transactions transactions' : List Transaction}
    {root : Checksum} (h : H.pairedRoot transactions = some root) (h' : H.pairedRoot transactions' = some root) :
    transactions.map H.merkleDigest = transactions'.map H.merkleDigest := by
  rw [pairedRoot, Option.map_eq_some_iff] at h h'
  obtain ⟨id, hid, rfl⟩ := h
  obtain ⟨id', hid', heq⟩ := h'
  rw [hfree.hash heq] at hid'
  -- the digests of transactions are the leaves
  refine PairTree.foldPairs_injective hfree.hashPair (P := fun d => ∃ t, H.merkleDigest t = d) ?_ ?_ ?_ hid hid'
  · rintro left right ⟨t, ht⟩
    exact hfree.leaf_ne_pair t left right ht
  all_goals
    intro d hd
    obtain ⟨t, -, ht⟩ := List.mem_map.mp hd
    exact ⟨t, ht⟩

variable (H)

/-- The root of a list commits to it: the loops end with the root of the pairs, and no other list has that root.
A block without transactions has the root `checksum_type()`, which is no commitment if it is the hash of a digest. -/
structure Commits (transactions : List Transaction) : Prop where
  returns : ∃ root, H.pairedRoot transactions = some root ∧ H.Returns transactions root
  injective : H.CollisionFree → ∀ transactions', (transactions' = [] → ∀ id, H.hash id ≠ H.noChecksum) →
    ∀ root, H.Returns transactions root → H.Returns transactions' root →
      transactions.map H.merkleDigest = transactions'.map H.merkleDigest ∧ transactions = transactions'

/-- **The root commits to the transactions** of every block that has fewer than `2 ^ 32` of them, and of no other. -/
theorem merkle_root_commits_iff (transactions : List Transaction) (hne : transactions ≠ []) :
    H.Commits transactions ↔ transactions.length < 2 ^ 32 := by
  constructor
  · rintro ⟨⟨root, -, hreturns⟩, -⟩
    exact ((H.returns_iff hne).mp hreturns).1
  · intro hfew
    refine ⟨?_, ?_⟩
    · obtain ⟨root, hpaired, -⟩ := H.calculateMerkleRoot_eq hne hfew _ (Nat.lt_succ_self _)
      exact ⟨root, hpaired, (H.returns_iff hne).mpr ⟨hfew, hpaired⟩⟩
    · intro hfree transactions' hempty root h h'
      have hpaired := ((H.returns_iff hne).mp h).2
      have hne' : transactions' ≠ [] := by
        rintro rfl
        rw [H.returns_nil.mp h', pairedRoot, Option.map_eq_some_iff] at hpaired
        obtain ⟨id, -, hid⟩ := hpaired
        exact hempty rfl id hid
      have hdigests : transactions.map H.merkleDigest = transactions'.map H.merkleDigest :=
        pairedRoot_injective hfree hpaired ((H.returns_iff hne').mp h').2
      exact ⟨hdigests, List.map_injective_iff.mpr hfree.merkleDigest hdigests⟩

end MerkleHashes

/-- Hash functions without collisions. The digests of transactions are even, and the hashes of pairs odd. -/
def pairingHashes : MerkleHashes ℕ ℕ (Option ℕ) where
  merkleDigest transaction := 2 * transaction
  hashPair left right := 2 * Nat.pair left right + 1
  hash := some
  noDigest := 0
  noChecksum := none

theorem pairingHashes_collisionFree : pairingHashes.CollisionFree where
  merkleDigest a b h := by
    have heq : 2 * a = 2 * b := h
    omega
  hashPair a a' b b' h := by
    have heq : 2 * Nat.pair a b + 1 = 2 * Nat.pair a' b' + 1 := h
    exact Nat.pair_eq_pair.mp (by omega)
  hash := Option.some_injective ℕ
  leaf_ne_pair t left right := by
    show 2 * t ≠ 2 * Nat.pair left right + 1
    omega

/-- Three transactions have a root, which no other list has. -/
theorem merkle_root_commits_three : pairingHashes.CollisionFree ∧ pairingHashes.Commits [7, 8, 8] :=
  ⟨pairingHashes_collisionFree,
    (pairingHashes.merkle_root_commits_iff [7, 8, 8] (by decide)).mpr (by decide)⟩

/-- The root of `2 ^ 32` transactions is never computed. -/
theorem merkle_root_never_ends :
    (∀ fuel, pairingHashes.calculateMerkleRoot fuel (List.replicate (2 ^ 32) 0) = .error .unfinished) ∧
      ¬ pairingHashes.Commits (List.replicate (2 ^ 32) 0) := by
  have hend : ∀ fuel, pairingHashes.calculateMerkleRoot fuel (List.replicate (2 ^ 32) 0) = .error .unfinished :=
    fun fuel => pairingHashes.calculateMerkleRoot_never_ends List.length_replicate.ge fuel
  refine ⟨hend, fun hcommits => ?_⟩
  obtain ⟨root, -, least, hrun⟩ := hcommits.returns
  exact absurd ((hrun least le_rfl).symm.trans (hend least)) (by simp)

end FinChain.Chain
