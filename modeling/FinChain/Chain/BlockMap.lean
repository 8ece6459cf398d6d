import Mathlib.Data.List.Induction
import Mathlib.Logic.Equiv.List
import FinChain.Chain.BlockFiles

/-!
# The block database as a map

What the block database is for: a map from block numbers to blocks, in which a block is stored under
its number over whatever was there, and removed again under its id. All readers of the files should
answer from this map (`Agrees`).

They do so in every run of stores and removals, with one exception. `fetch_optional` and
`fetch_by_number` do not check that a record has a block, as `contains`, `last` and `last_id` do. For a
removed block they unpack no bytes, and if this makes a block with just the id of the removed one, they
return it (`agrees_iff`). That is the block that is made without reading anything, with a number like
any other block.
-/

namespace FinChain.Chain

variable {Op R : Type}

/-- The blocks that are present, with the ids they were stored under. -/
abbrev BlockMap (Op : Type) := ℕ → Option (BlockId × SignedBlock Op)

namespace BlockMap

def store (m : BlockMap Op) (id : BlockId) (b : SignedBlock Op) : BlockMap Op :=
  Function.update m id.num (some (id, b))

def remove (m : BlockMap Op) (id : BlockId) : BlockMap Op :=
  Function.update m id.num ((m id.num).filter fun e => e.1 ≠ id)

def contains (m : BlockMap Op) (id : BlockId) : Bool := (m id.num).any fun e => e.1 = id

def fetchOptional (m : BlockMap Op) (id : BlockId) : Option (SignedBlock Op) :=
  ((m id.num).filter fun e => e.1 = id).map Prod.snd

def fetchByNumber (m : BlockMap Op) (n : ℕ) : Option (SignedBlock Op) := (m n).map Prod.snd

/-- The entry with the highest number, or none. -/
def Last (m : BlockMap Op) : Option (BlockId × SignedBlock Op) → Prop
  | none => ∀ n, m n = none
  | some e => ∃ n, m n = some e ∧ ∀ k, n < k → m k = none

end BlockMap

/-- The writes to a block database. A block is stored under its own id. -/
inductive FileOp (Op : Type)
  | store (b : SignedBlock Op)
  | remove (id : BlockId)

/-- One write. A removal that throws leaves the files as they are. -/
def BlockFiles.apply (P : Protocol Op R) (C : Codec Op) (f : BlockFiles) : FileOp Op → BlockFiles
  | .store b => f.store P C (P.blockId b) b
  | .remove id => match f.remove id with
    | .ok f' => f'
    | .error _ => f

/-- The files after a run of writes, from empty files. -/
def BlockFiles.run (P : Protocol Op R) (C : Codec Op) (ops : List (FileOp Op)) : BlockFiles :=
  ops.foldl (BlockFiles.apply P C) {}

def BlockMap.apply (P : Protocol Op R) (m : BlockMap Op) : FileOp Op → BlockMap Op
  | .store b => m.store (P.blockId b) b
  | .remove id => m.remove id

def BlockMap.run (P : Protocol Op R) (ops : List (FileOp Op)) : BlockMap Op :=
  ops.foldl (BlockMap.apply P) fun _ => none

def BlockDatabase.apply (P : Protocol Op R) (d : BlockDatabase Op) : FileOp Op → BlockDatabase Op
  | .store b => d.store P (P.blockId b) b
  | .remove id => match d.remove id with
    | .ok d' => d'
    | .error _ => d

def BlockDatabase.run (P : Protocol Op R) (ops : List (FileOp Op)) : BlockDatabase Op :=
  ops.foldl (BlockDatabase.apply P) {}

/-- All readers answer from the map. -/
structure Agrees (P : Protocol Op R) (C : Codec Op) (f : BlockFiles) (m : BlockMap Op) : Prop where
  contains : ∀ id, f.contains id = m.contains id
  fetchOptional : ∀ id, f.fetchOptional P C id = m.fetchOptional id
  fetchByNumber : ∀ n, f.fetchByNumber P C n = m.fetchByNumber n
  last : ∃ e, m.Last e ∧ f.last C = e.map Prod.snd ∧ f.lastId = e.map Prod.fst

/-- The ids that were stored, in order. -/
def storedIds (P : Protocol Op R) (ops : List (FileOp Op)) : List BlockId :=
  ops.filterMap fun op => match op with
    | .store b => some (P.blockId b)
    | .remove _ => none

/-- The id that was last stored under a number. -/
def newestId (P : Protocol Op R) (ops : List (FileOp Op)) (n : ℕ) : Option BlockId :=
  ((storedIds P ops).filter fun id => id.num = n).getLast?

/-- The block that was last stored under its number had the id, and is not present any more. -/
def NewestRemoved (P : Protocol Op R) (ops : List (FileOp Op)) (id : BlockId) : Prop :=
  newestId P ops id.num = some id ∧ BlockMap.run P ops id.num = none

/-! ### The map of a block database -/

/-- The block database has the blocks of the map, each under its own id and number. -/
structure Holds (P : Protocol Op R) (d : BlockDatabase Op) (m : BlockMap Op) : Prop where
  entry : ∀ n, m n = (d.entries n).block.map fun b => ((d.entries n).blockId, b)
  placed : ∀ n b, (d.entries n).block = some b →
    n < d.size ∧ (d.entries n).blockId = P.blockId b ∧ (P.blockId b).num = n
  numbered : ∀ n, (d.entries n).blockId = .zero ∨ (n < d.size ∧ (d.entries n).blockId.num = n)

section Holds

variable {P : Protocol Op R} {d : BlockDatabase Op} {m : BlockMap Op}

theorem holds_empty (P : Protocol Op R) : Holds P ({} : BlockDatabase Op) fun _ => none where
  entry _ := rfl
  placed n b h := by cases h
  numbered _ := .inl rfl

theorem BlockDatabase.store_blockId (P : Protocol Op R) (d : BlockDatabase Op) (b : SignedBlock Op) :
    d.store P (P.blockId b) b =
      { size := max d.size ((P.blockId b).num + 1)
        entries := fun n =>
          if n = (P.blockId b).num then { blockId := P.blockId b, block := some b }
          else if n < d.size then d.entries n
          else {} } := by
  unfold BlockDatabase.store
  rw [if_neg (P.blockId_ne_zero b)]

theorem Holds.store (h : Holds P d m) (b : SignedBlock Op) :
    Holds P (d.store P (P.blockId b) b) (m.store (P.blockId b) b) := by
  rw [d.store_blockId P b]
  -- an entry beyond the end of the database has no block
  have hbeyond : ∀ n, ¬ n < d.size → m n = none := by
    intro n hn
    rw [h.entry]
    cases hblock : (d.entries n).block with
    | none => rfl
    | some b' => exact absurd (h.placed n b' hblock).1 hn
  constructor
  · intro n
    unfold BlockMap.store
    dsimp only
    by_cases hnum : n = (P.blockId b).num
    · rw [if_pos hnum, hnum, Function.update_self]
      rfl
    · rw [if_neg hnum, Function.update_of_ne hnum]
      by_cases hlt : n < d.size
      · rw [if_pos hlt]
        exact h.entry n
      · rw [if_neg hlt]
        exact hbeyond n hlt
  · intro n b' hblock
    dsimp only at hblock ⊢
    by_cases hnum : n = (P.blockId b).num
    · rw [if_pos hnum] at hblock ⊢
      obtain rfl := Option.some.inj hblock
      exact ⟨by omega, rfl, hnum.symm⟩
    · rw [if_neg hnum] at hblock ⊢
      by_cases hlt : n < d.size
      · rw [if_pos hlt] at hblock ⊢
        exact ⟨by omega, (h.placed n b' hblock).2⟩
      · rw [if_neg hlt] at hblock
        cases hblock
  · intro n
    dsimp only
    by_cases hnum : n = (P.blockId b).num
    · rw [if_pos hnum]
      exact .inr ⟨by omega, hnum.symm⟩
    · rw [if_neg hnum]
      by_cases hlt : n < d.size
      · rw [if_pos hlt]
        exact (h.numbered n).imp_right fun hand => ⟨by omega, hand.2⟩
      · rw [if_neg hlt]
        exact .inl rfl

theorem Holds.remove (h : Holds P d m) (id : BlockId) :
    Holds P (d.apply P (.remove id)) (m.remove id) := by
  dsimp only [BlockDatabase.apply]
  cases hremove : d.remove id with
  | error e =>
    -- the number is beyond the end, where the map has nothing
    have hnone : m id.num = none := by
      unfold BlockDatabase.remove at hremove
      split at hremove
      · next hle =>
        rw [h.entry]
        cases hblock : (d.entries id.num).block with
        | none => rfl
        | some b => exact absurd (h.placed _ b hblock).1 (Nat.not_lt.mpr hle)
      · split at hremove <;> cases hremove
    have hsame : m.remove id = m := by
      unfold BlockMap.remove
      rw [hnone]
      exact Function.update_eq_self_iff.mpr hnone.symm
    rw [hsame]
    exact h
  | ok d' =>
    obtain ⟨hsize, hentries⟩ := BlockDatabase.remove_ok hremove
    constructor
    · intro n
      dsimp only
      rw [(hentries n).1, (hentries n).2]
      unfold BlockMap.remove
      by_cases hnum : n = id.num
      · subst hnum
        rw [Function.update_self, h.entry]
        by_cases hid : (d.entries id.num).blockId = id
        · rw [if_pos ⟨rfl, hid⟩]
          cases (d.entries id.num).block with
          | none => rfl
          | some b => simp [Option.filter, hid]
        · rw [if_neg fun hand => hid hand.2]
          cases (d.entries id.num).block with
          | none => rfl
          | some b => simp [Option.filter, hid]
      · rw [Function.update_of_ne hnum, if_neg fun hand => hnum hand.1]
        exact h.entry n
    · intro n b hblock
      dsimp only at hblock ⊢
      rw [(hentries n).2] at hblock
      rw [hsize, (hentries n).1]
      split at hblock
      · cases hblock
      · exact h.placed n b hblock
    · intro n
      dsimp only
      rw [hsize, (hentries n).1]
      exact h.numbered n

theorem Holds.apply (h : Holds P d m) (op : FileOp Op) : Holds P (d.apply P op) (m.apply P op) := by
  cases op with
  | store b => exact h.store b
  | remove id => exact h.remove id

theorem BlockDatabase.blockId_store (P : Protocol Op R) (h : Holds P d m) (b : SignedBlock Op) (n : ℕ) :
    ((d.store P (P.blockId b) b).entries n).blockId =
      if (P.blockId b).num = n then P.blockId b else (d.entries n).blockId := by
  rw [d.store_blockId P b]
  dsimp only
  by_cases hnum : n = (P.blockId b).num
  · rw [if_pos hnum, if_pos hnum.symm]
  · rw [if_neg hnum, if_neg (Ne.symm hnum)]
    by_cases hlt : n < d.size
    · rw [if_pos hlt]
    · rw [if_neg hlt]
      exact ((h.numbered n).resolve_right fun hand => hlt hand.1).symm

theorem BlockDatabase.blockId_remove (P : Protocol Op R) (d : BlockDatabase Op) (id : BlockId) (n : ℕ) :
    ((d.apply P (.remove id)).entries n).blockId = (d.entries n).blockId := by
  dsimp only [BlockDatabase.apply]
  cases hremove : d.remove id with
  | error e => rfl
  | ok d' => exact ((BlockDatabase.remove_ok hremove).2 n).1

end Holds

/-! ### Runs -/

section Runs

variable {P : Protocol Op R} {C : Codec Op}

theorem BlockFiles.run_concat (ops : List (FileOp Op)) (op : FileOp Op) :
    BlockFiles.run P C (ops ++ [op]) = (BlockFiles.run P C ops).apply P C op := List.foldl_concat _ _ _ _

theorem BlockMap.run_concat (ops : List (FileOp Op)) (op : FileOp Op) :
    BlockMap.run P (ops ++ [op]) = (BlockMap.run P ops).apply P op := List.foldl_concat _ _ _ _

theorem BlockDatabase.run_concat (ops : List (FileOp Op)) (op : FileOp Op) :
    BlockDatabase.run P (ops ++ [op]) = (BlockDatabase.run P ops).apply P op := List.foldl_concat _ _ _ _

/-- Every run of writes leaves the map in the block database. -/
theorem holds_run (ops : List (FileOp Op)) : Holds P (BlockDatabase.run P ops) (BlockMap.run P ops) := by
  induction ops using List.reverseRecOn with
  | nil => exact holds_empty P
  | append_singleton ops op ih =>
    rw [BlockDatabase.run_concat, BlockMap.run_concat]
    exact ih.apply op

theorem BlockFiles.Represents.apply {f : BlockFiles} {d : BlockDatabase Op} (h : f.Represents C d)
    {op : FileOp Op} (hop : ∀ b, op = .store b → C.Fits b) :
    (f.apply P C op).Represents C (d.apply P op) := by
  cases op with
  | store b => exact h.store (hop b rfl) _
  | remove id =>
    rcases h.remove id with ⟨f', d', hf, hd, h'⟩ | ⟨hf, hd⟩
    · dsimp only [BlockFiles.apply, BlockDatabase.apply]
      rw [hf, hd]
      exact h'
    · dsimp only [BlockFiles.apply, BlockDatabase.apply]
      rw [hf, hd]
      exact h

/-- **Every run** of writes leaves the block database in the files. -/
theorem represents_run : ∀ ops : List (FileOp Op), (∀ b, .store b ∈ ops → C.Fits b) →
    (BlockFiles.run P C ops).Represents C (BlockDatabase.run P ops) := by
  intro ops
  induction ops using List.reverseRecOn with
  | nil => exact fun _ => BlockFiles.represents_empty C
  | append_singleton ops op ih =>
    intro hfits
    rw [BlockFiles.run_concat, BlockDatabase.run_concat]
    refine (ih fun b hb => hfits b (List.mem_append_left _ hb)).apply fun b hb => hfits b ?_
    rw [hb]
    exact List.mem_append_right _ List.mem_cons_self

theorem newestId_store (ops : List (FileOp Op)) (b : SignedBlock Op) (n : ℕ) :
    newestId P (ops ++ [.store b]) n =
      if (P.blockId b).num = n then some (P.blockId b) else newestId P ops n := by
  unfold newestId storedIds
  rw [List.filterMap_append, List.filter_append]
  by_cases hnum : (P.blockId b).num = n
  · rw [if_pos hnum]
    simp only [List.filterMap_cons, List.filterMap_nil, List.filter_cons, hnum, decide_true, if_true,
      List.filter_nil, List.getLast?_concat]
  · rw [if_neg hnum]
    simp only [List.filterMap_cons, List.filterMap_nil, List.filter_cons, hnum, decide_false,
      Bool.false_eq_true, if_false, List.filter_nil, List.append_nil]

theorem newestId_remove (ops : List (FileOp Op)) (id : BlockId) (n : ℕ) :
    newestId P (ops ++ [.remove id]) n = newestId P ops n := by
  unfold newestId storedIds
  rw [List.filterMap_append]
  simp only [List.filterMap_cons, List.filterMap_nil, List.append_nil]

/-- An entry keeps the id that was last stored under its number. -/
theorem newestId_run (ops : List (FileOp Op)) (n : ℕ) :
    newestId P ops n =
      if ((BlockDatabase.run P ops).entries n).blockId = .zero then none
      else some ((BlockDatabase.run P ops).entries n).blockId := by
  induction ops using List.reverseRecOn with
  | nil => rfl
  | append_singleton ops op ih =>
    rw [BlockDatabase.run_concat]
    cases op with
    | store b =>
      have hid := BlockDatabase.blockId_store P (holds_run ops) b n
      change newestId P (ops ++ [.store b]) n =
        if (((BlockDatabase.run P ops).store P (P.blockId b) b).entries n).blockId = .zero then none
        else some (((BlockDatabase.run P ops).store P (P.blockId b) b).entries n).blockId
      rw [newestId_store, hid]
      by_cases hnum : (P.blockId b).num = n
      · rw [if_pos hnum, if_pos hnum, if_neg (P.blockId_ne_zero b)]
      · rw [if_neg hnum, if_neg hnum, ih]
    | remove id => rw [newestId_remove, BlockDatabase.blockId_remove, ih]

/-- A removed block leaves its id in an entry without a block. -/
theorem blank_iff (ops : List (FileOp Op)) (b : SignedBlock Op) :
    BlockFiles.Blank (BlockDatabase.run P ops) (P.blockId b) ↔ NewestRemoved P ops (P.blockId b) := by
  have hholds := holds_run (P := P) ops
  set d := BlockDatabase.run P ops
  have hentry := hholds.entry (P.blockId b).num
  have hnewest := newestId_run (P := P) ops (P.blockId b).num
  unfold BlockFiles.Blank NewestRemoved
  rw [hnewest, hentry, Option.map_eq_none_iff]
  constructor
  · rintro ⟨-, hid, hblock⟩
    rw [hid, if_neg (P.blockId_ne_zero b)]
    exact ⟨rfl, hblock⟩
  · rintro ⟨hid, hblock⟩
    split at hid
    · cases hid
    · next hne =>
      exact ⟨((hholds.numbered _).resolve_left hne).1, Option.some.inj hid, hblock⟩

end Runs

/-! ### Readers -/

namespace BlockFiles

section Readers

variable {P : Protocol Op R} {C : Codec Op} {f : BlockFiles} {d : BlockDatabase Op} {m : BlockMap Op}

theorem contains_eq (h : f.Represents C d) (hm : Holds P d m) (id : BlockId) :
    f.contains id = m.contains id := by
  rw [h.contains_eq]
  unfold BlockDatabase.contains BlockMap.contains
  rw [hm.entry]
  cases hblock : (d.entries id.num).block with
  | none => exact decide_eq_false fun hand => Bool.false_ne_true hand.2.2.2
  | some b =>
    obtain ⟨hlt, hid, -⟩ := hm.placed _ b hblock
    refine decide_eq_decide.mpr ⟨fun hand => hand.2.2.1, fun heq => ⟨?_, hlt, heq, rfl⟩⟩
    rintro rfl
    exact P.blockId_ne_zero b (hid.symm.trans heq)

/-- Fetching by id is right, unless no bytes are unpacked to a block with the id of an entry without
one. -/
theorem fetchOptional_eq_iff (h : f.Represents C d) (hm : Holds P d m) (id : BlockId) :
    f.fetchOptional P C id = m.fetchOptional id ↔
      ¬ (Blank d id ∧ ∃ b, C.unpack [] = some b ∧ P.blockId b = id) := by
  obtain ⟨hfull, hblank⟩ := h.fetchOptional_eq (P := P) id
  by_cases hid : Blank d id
  · have hnone : m.fetchOptional id = none := by
      unfold BlockMap.fetchOptional
      rw [hm.entry, hid.2.2]
      rfl
    rw [hblank hid, hnone, Option.filter_eq_none_iff]
    constructor
    · rintro hall ⟨-, b, hb, hbid⟩
      exact hall b hb (decide_eq_true hbid)
    · rintro hnot b hb hbid
      exact hnot ⟨hid, b, hb, of_decide_eq_true hbid⟩
  · refine iff_of_true ?_ fun hand => hid hand.1
    rw [hfull hid]
    unfold BlockDatabase.fetchOptional BlockMap.fetchOptional
    rw [hm.entry]
    cases hblock : (d.entries id.num).block with
    | none =>
      split
      · rfl
      · split <;> rfl
    | some b =>
      obtain ⟨hlt, hentry, -⟩ := hm.placed _ b hblock
      rw [if_neg (Nat.not_le.mpr hlt), hentry]
      by_cases hbid : P.blockId b = id
      · rw [if_neg (not_not.mpr hbid)]
        simp [Option.filter, hbid]
      · rw [if_pos hbid]
        simp [Option.filter, hbid]

/-- Fetching by number is right, unless no bytes are unpacked to a block with the id of the entry. -/
theorem fetchByNumber_eq_iff (h : f.Represents C d) (hm : Holds P d m) (n : ℕ) :
    f.fetchByNumber P C n = m.fetchByNumber n ↔
      ¬ ∃ b, C.unpack [] = some b ∧ (P.blockId b).num = n ∧ Blank d (P.blockId b) := by
  unfold fetchByNumber BlockMap.fetchByNumber
  rw [hm.entry]
  by_cases hlt : n < d.size
  · obtain ⟨e, he, hrecord⟩ := h.exists_record hlt
    have hunpack := hrecord.unpackBlock_eq
    rw [he]
    change (f.unpackBlock C e >>= fun result => if P.blockId result = e.blockId then some result else none) =
      _ ↔ _
    rw [hunpack, hrecord.1]
    cases hblock : (d.entries n).block with
    | some b =>
      obtain ⟨-, hid, hnum⟩ := hm.placed n b hblock
      refine iff_of_true ?_ ?_
      · change (if P.blockId b = (d.entries n).blockId then some b else none) = some b
        rw [if_pos hid.symm]
      · rintro ⟨b', -, hnum', -, -, hnone⟩
        rw [hnum', hblock] at hnone
        cases hnone
    | none =>
      dsimp only
      cases hempty : C.unpack [] with
      | none => exact iff_of_true rfl fun ⟨b, hb, _⟩ => by cases hb
      | some b₀ =>
        change (if P.blockId b₀ = (d.entries n).blockId then some b₀ else none) = none ↔ _
        by_cases hid : P.blockId b₀ = (d.entries n).blockId
        · rw [if_pos hid]
          -- an entry with the id of a block is at the number of the block
          have hnum : (P.blockId b₀).num = n := by
            rw [hid]
            refine ((hm.numbered n).resolve_left fun hzero => ?_).2
            exact P.blockId_ne_zero b₀ (hid.trans hzero)
          refine iff_of_false (fun heq => by cases heq) (not_not.mpr ⟨b₀, rfl, hnum, ?_⟩)
          unfold Blank
          rw [hnum]
          exact ⟨hlt, hid.symm, hblock⟩
        · rw [if_neg hid]
          refine iff_of_true rfl ?_
          rintro ⟨b, hb, hnum, -, hentry, -⟩
          obtain rfl := Option.some.inj hb
          rw [hnum] at hentry
          exact hid hentry.symm
  · have hnone : (d.entries n).block = none := by
      cases hblock : (d.entries n).block with
      | none => rfl
      | some b => exact absurd (hm.placed n b hblock).1 hlt
    rw [h.get_eq_none.mpr (Nat.le_of_not_lt hlt), hnone]
    refine iff_of_true rfl ?_
    rintro ⟨b, -, rfl, hblank⟩
    exact hlt hblank.1

/-! ### The last block -/

/-- No record with a number from here to there has a block. -/
def BlankFrom (f : BlockFiles) (first last : ℕ) : Prop :=
  ∀ n e, first ≤ n → n < last → f.blockNumToPos.get n = some e → e.blockSize = 0

/-- **The loop** goes back to the last record with a block, if there is one. -/
theorem scanBack_spec : ∀ {pos : ℕ}, pos ≤ f.blockNumToPos.size → ∀ {e : IndexRecord}, e.blockSize = 0 →
    ∃ e', f.scanBack pos e = some e' ∧ ((e'.blockSize = 0 ∧ f.BlankFrom 0 pos) ∨
      ∃ n < pos, f.blockNumToPos.get n = some e' ∧ 0 < e'.blockSize ∧ f.BlankFrom (n + 1) pos)
  | 0, _, e, he => ⟨e, rfl, .inl ⟨he, fun _ _ _ hlt => absurd hlt (Nat.not_lt_zero _)⟩⟩
  | pos + 1, hpos, e, he => by
    obtain ⟨e₁, he₁⟩ := CellFile.exists_get (Nat.lt_of_succ_le hpos)
    rw [scanBack, if_pos he, he₁]
    change ∃ e', f.scanBack pos e₁ = some e' ∧ _
    by_cases hsize : e₁.blockSize = 0
    · -- the range without blocks grows by the record that was read
      have hgrow : ∀ first, f.BlankFrom first pos → f.BlankFrom first (pos + 1) := by
        intro first hblank n e' hfirst hlt he'
        rcases Nat.lt_succ_iff_lt_or_eq.mp hlt with hlt | rfl
        · exact hblank n e' hfirst hlt he'
        · rw [he₁] at he'
          rwa [← Option.some.inj he']
      obtain ⟨e', hscan, hcases⟩ := scanBack_spec (Nat.le_of_succ_le hpos) hsize
      refine ⟨e', hscan, hcases.imp (fun hand => ⟨hand.1, hgrow 0 hand.2⟩) ?_⟩
      rintro ⟨n, hn, hget, hused, hblank⟩
      exact ⟨n, Nat.lt_succ_of_lt hn, hget, hused, hgrow _ hblank⟩
    · have hstop : f.scanBack pos e₁ = some e₁ := by
        cases pos with
        | zero => rfl
        | succ pos => rw [scanBack, if_neg hsize]
      refine ⟨e₁, hstop, .inr ⟨pos, Nat.lt_succ_self _, he₁, Nat.pos_of_ne_zero hsize, ?_⟩⟩
      intro n e' hn hlt
      omega

theorem lastRecord_spec (f : BlockFiles) :
    (f.lastRecord = none ∧ f.BlankFrom 0 f.blockNumToPos.size) ∨
    ∃ n e, f.lastRecord = some e ∧ f.blockNumToPos.get n = some e ∧ 0 < e.blockSize ∧
      f.BlankFrom (n + 1) f.blockNumToPos.size := by
  unfold lastRecord
  by_cases hempty : f.blockNumToPos.size < 1
  · rw [if_pos hempty]
    exact .inl ⟨rfl, fun n e _ hlt => by omega⟩
  rw [if_neg hempty]
  obtain ⟨e, he⟩ := CellFile.exists_get (f := f.blockNumToPos) (Nat.sub_lt (by omega) Nat.one_pos)
  rw [he]
  by_cases hsize : e.blockSize = 0
  · obtain ⟨e', hscan, hcases⟩ := f.scanBack_spec (Nat.le_refl _) hsize
    change (((f.scanBack _ e) >>= fun e => if e.blockSize = 0 then none else some e) = none ∧ _) ∨
      ∃ n e', ((f.scanBack _ e) >>= fun e => if e.blockSize = 0 then none else some e) = some e' ∧ _
    rw [hscan]
    rcases hcases with ⟨hnone, hblank⟩ | ⟨n, -, hget, hused, hblank⟩
    · exact .inl ⟨if_pos hnone, hblank⟩
    · exact .inr ⟨n, e', if_neg hused.ne', hget, hused, hblank⟩
  · obtain ⟨last, hlast⟩ : ∃ last, f.blockNumToPos.size = last + 1 :=
      Nat.exists_eq_succ_of_ne_zero fun hzero => hempty (by omega)
    have hscan : f.scanBack f.blockNumToPos.size e = some e := by
      rw [hlast, scanBack, if_neg hsize]
    change (((f.scanBack _ e) >>= fun e => if e.blockSize = 0 then none else some e) = none ∧ _) ∨
      ∃ n e', ((f.scanBack _ e) >>= fun e => if e.blockSize = 0 then none else some e) = some e' ∧ _
    rw [hscan]
    refine .inr ⟨f.blockNumToPos.size - 1, e, if_neg hsize, he, Nat.pos_of_ne_zero hsize, ?_⟩
    intro n e' hn hlt
    omega

/-- `last` and `last_id` find the last entry of the map. -/
theorem last_eq (h : f.Represents C d) (hm : Holds P d m) :
    ∃ e, m.Last e ∧ f.last C = e.map Prod.snd ∧ f.lastId = e.map Prod.fst := by
  -- the map has nothing where the records have no blocks
  have hnone : ∀ first, f.BlankFrom first f.blockNumToPos.size → ∀ n, first ≤ n → m n = none := by
    intro first hblank n hn
    rw [hm.entry]
    cases hblock : (d.entries n).block with
    | none => rfl
    | some b =>
      have hlt := (hm.placed n b hblock).1
      obtain ⟨e, he, hrecord⟩ := h.exists_record hlt
      have hused := hrecord.size_pos_iff.mpr (by rw [hblock]; rfl)
      rw [hblank n e hn (h.size.symm ▸ hlt) he] at hused
      exact absurd hused (Nat.lt_irrefl 0)
  unfold last lastId
  rcases f.lastRecord_spec with ⟨hlast, hblank⟩ | ⟨n, e, hlast, hget, hused, hblank⟩
  · rw [hlast]
    exact ⟨none, fun n => hnone 0 hblank n (Nat.zero_le n), rfl, rfl⟩
  · have hrecord := h.record n e hget
    have hsome := hrecord.size_pos_iff.mp hused
    have hunpack := hrecord.unpackBlock_eq
    have hentry := hm.entry n
    rw [hlast]
    cases hblock : (d.entries n).block with
    | none =>
      rw [hblock] at hsome
      cases hsome
    | some b =>
      rw [hblock] at hunpack hentry
      refine ⟨some ((d.entries n).blockId, b), ⟨n, hentry, fun k hk => hnone _ hblank k hk⟩, hunpack, ?_⟩
      exact congrArg some hrecord.1

end Readers

end BlockFiles

/-- **The files behave as the map**, after every run of writes, exactly if no bytes are not unpacked to a
block that was removed and not overwritten. -/
theorem agrees_iff (P : Protocol Op R) (C : Codec Op) (ops : List (FileOp Op))
    (hfits : ∀ b, .store b ∈ ops → C.Fits b) :
    Agrees P C (BlockFiles.run P C ops) (BlockMap.run P ops) ↔
      ∀ b, C.unpack [] = some b → ¬ NewestRemoved P ops (P.blockId b) := by
  have hfiles := represents_run (P := P) ops hfits
  have hmap := holds_run (P := P) ops
  constructor
  · intro h b hb hremoved
    have hoptional := (BlockFiles.fetchOptional_eq_iff hfiles hmap _).mp (h.fetchOptional (P.blockId b))
    exact hoptional ⟨(blank_iff ops b).mpr hremoved, b, hb, rfl⟩
  · intro h
    refine ⟨BlockFiles.contains_eq hfiles hmap, fun id => ?_, fun n => ?_, BlockFiles.last_eq hfiles hmap⟩
    · refine (BlockFiles.fetchOptional_eq_iff hfiles hmap id).mpr ?_
      rintro ⟨hblank, b, hb, rfl⟩
      exact h b hb ((blank_iff ops b).mp hblank)
    · refine (BlockFiles.fetchByNumber_eq_iff hfiles hmap n).mpr ?_
      rintro ⟨b, hb, -, hblank⟩
      exact h b hb ((blank_iff ops b).mp hblank)

section Example

/-- The fields of a block, in pairs. -/
private abbrev BlockFields := (ℕ × ℕ) × ℕ × ℕ × ℕ × ℕ × List (ℕ × ℕ × ℕ × List ℕ × List ℕ)

private def fieldsOf (b : SignedBlock ℕ) : BlockFields :=
  ((b.previous.num, b.previous.hash), b.timestamp, b.witness, b.transactionMerkleRoot,
    b.witnessSignature, b.transactions.map fun tx =>
      (tx.refBlockNum, tx.refBlockPrefix, tx.expiration, tx.operations, tx.signatures))

private def ofFields (x : BlockFields) : SignedBlock ℕ where
  previous := ⟨x.1.1, x.1.2⟩
  timestamp := x.2.1
  witness := x.2.2.1
  transactionMerkleRoot := x.2.2.2.1
  witnessSignature := x.2.2.2.2.1
  transactions := x.2.2.2.2.2.map fun y => ⟨y.1, y.2.1, y.2.2.1, y.2.2.2.1, y.2.2.2.2⟩

private theorem ofFields_fieldsOf (b : SignedBlock ℕ) : ofFields (fieldsOf b) = b := by
  unfold ofFields fieldsOf
  have hmap : ∀ l : List (Transaction ℕ), (l.map fun tx =>
      (tx.refBlockNum, tx.refBlockPrefix, tx.expiration, tx.operations, tx.signatures)).map
      (fun y => (⟨y.1, y.2.1, y.2.2.1, y.2.2.2.1, y.2.2.2.2⟩ : Transaction ℕ)) = l := by
    intro l
    rw [List.map_map]
    exact List.map_id l
  rw [hmap]

/-- `signed_block()`. -/
private def emptyBlock : SignedBlock ℕ := ⟨.zero, 0, 0, 0, 0, []⟩

/-- Blocks in unary. No bytes are unpacked to the block that is made without reading anything. -/
private def unary : Codec ℕ where
  pack b := List.replicate (Encodable.encode (fieldsOf b) + 1) 0
  unpack l := match l.length with
    | 0 => some emptyBlock
    | n + 1 => (Encodable.decode n).map ofFields
  unpack_pack b := by
    rw [List.length_replicate]
    change (Encodable.decode (Encodable.encode (fieldsOf b))).map ofFields = some b
    rw [Encodable.encodek, Option.map_some, ofFields_fieldsOf]
  pack_ne_nil b := List.cons_ne_nil _ _

private theorem unary_fits : unary.Fits emptyBlock := by
  have hlength : (unary.pack emptyBlock).length = 1 := rfl
  unfold Codec.Fits
  rw [hlength]
  decide

private theorem fits_stored (ops : List (FileOp ℕ)) (hops : ∀ b, .store b ∈ ops → b = emptyBlock) :
    ∀ b, .store b ∈ ops → unary.Fits b := by
  intro b hb
  rw [hops b hb]
  exact unary_fits

theorem agrees_iff_stored :
    Agrees .permissive unary (.run .permissive unary [.store emptyBlock])
      (.run .permissive [.store emptyBlock]) :=
  (agrees_iff .permissive unary [.store emptyBlock] (fits_stored _ (by simp))).mpr
    fun b hb => by
      obtain rfl := Option.some.inj hb
      exact fun hremoved => by cases hremoved.2

/-- A removed block that is found again. -/
theorem not_agrees : ¬ ∀ (C : Codec ℕ) (ops : List (FileOp ℕ)), (∀ b, .store b ∈ ops → C.Fits b) →
    Agrees .permissive C (.run .permissive C ops) (.run .permissive ops) := by
  intro hall
  have hagrees := hall unary [.store emptyBlock, .remove (Protocol.permissive.blockId emptyBlock)]
    (fits_stored _ (by simp))
  have hfound := hagrees.fetchOptional (Protocol.permissive.blockId emptyBlock)
  have hnone : BlockMap.fetchOptional (.run .permissive
      [.store emptyBlock, .remove (Protocol.permissive.blockId emptyBlock)])
      (Protocol.permissive.blockId emptyBlock) = none := rfl
  rw [hnone] at hfound
  cases hfound

end Example

end FinChain.Chain
