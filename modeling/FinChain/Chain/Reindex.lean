import FinChain.Chain.LastIrreversible

/-!
# Reindexing

`database::reindex` throws the object state away and builds it again from the blocks in the block
database. It opens the database first, and opening seeds the fork database with the last block that is
stored. Then it applies the blocks one number after the other, up to the number of that last block,
with the undo database disabled and without the checks that were made when the blocks were pushed. At
a number without a readable block it stops, and removes from the file what is stored beyond it.

A `BlockFile` is a block database as it may be found at a start: entries can be missing, the bytes
they point to can be no block, and the block can have another id than its entry. When such a read
fails, no further block is read, so it does not matter in what state it leaves the stream.

The main results here are about single loops. Replaying makes a block the head only if all before it
are readable (`replay_ok`), and removing the blocks beyond a gap ends and leaves the others
(`dropAfter_ok`).
-/

namespace FinChain.Chain

open Exec

variable {Op R : Type}

/-! ### The file of blocks -/

namespace BlockDatabase

/-- Every entry that carries a block is at the number of its id, and numbers start with one. -/
def Placed (d : BlockDatabase Op) : Prop :=
  ∀ n, (d.entries n).block.isSome → n < d.size ∧ 0 < n ∧ (d.entries n).blockId.num = n

theorem placed_empty : ({} : BlockDatabase Op).Placed := by
  intro n hn
  exact absurd hn (by simp)

theorem Placed.store {d : BlockDatabase Op} (h : d.Placed) (P : Protocol Op R) {id : BlockId}
    (hid : 0 < id.num) (b : SignedBlock Op) : (d.store P id b).Placed := by
  have hzero : id ≠ .zero := by
    rintro rfl
    exact absurd hid (lt_irrefl 0)
  intro n hn
  unfold BlockDatabase.store at hn ⊢
  rw [if_neg hzero] at hn ⊢
  dsimp only at hn ⊢
  by_cases heq : n = id.num
  · rw [if_pos heq]
    exact ⟨by omega, by omega, heq.symm⟩
  · rw [if_neg heq] at hn ⊢
    by_cases hlt : n < d.size
    · rw [if_pos hlt] at hn ⊢
      have hplaced := h n hn
      exact ⟨by omega, hplaced.2⟩
    · rw [if_neg hlt] at hn
      exact absurd hn (by simp)

theorem Placed.remove {d d' : BlockDatabase Op} {id : BlockId} (h : d.Placed)
    (hremove : d.remove id = .ok d') : d'.Placed := by
  obtain ⟨hsize, hentries⟩ := remove_ok hremove
  intro n hn
  rw [(hentries n).2] at hn
  split at hn
  · exact absurd hn (by simp)
  · rw [hsize, (hentries n).1]
    exact h n hn

end BlockDatabase

/-- A block database as it is found at a start. -/
structure BlockFile (Op : Type) where
  db : BlockDatabase Op
  /-- The bytes an entry points to are no block. -/
  corrupt : ℕ → Bool
  placed : db.Placed

namespace BlockFile

variable (F : BlockFile Op)

/-- `block_size` is not zero. -/
def used (n : ℕ) : Bool := (F.db.entries n).block.isSome

/-- The id of an entry. -/
def idAt (n : ℕ) : BlockId := (F.db.entries n).blockId

/-- Unpack the bytes of an entry. -/
def read (n : ℕ) : Option (SignedBlock Op) :=
  if F.corrupt n then none else (F.db.entries n).block

/-- `fetch_by_number`. -/
def fetchByNumber (P : Protocol Op R) (n : ℕ) : Option (SignedBlock Op) :=
  if F.db.size ≤ n then none else (F.read n).filter fun b => P.blockId b = F.idAt n

/-- The loop `while( e.block_size == 0 && pos > 0 )` from a position downwards. -/
def lastBelow : ℕ → Option ℕ
  | 0 => none
  | n + 1 => if F.used n then some n else lastBelow n

/-- The number of the last entry with a block. -/
def lastEntry : Option ℕ := F.lastBelow F.db.size

/-- `last`. The block is not compared with the id of its entry. -/
def last : Option (SignedBlock Op) := F.lastEntry.bind F.read

/-- `last_id`. -/
def lastId : Option BlockId := F.lastEntry.map F.idAt

/-- `remove`. -/
def remove (id : BlockId) : Except ChainError (BlockFile Op) :=
  match h : F.db.remove id with
  | .error e => .error e
  | .ok d => .ok { F with db := d, placed := F.placed.remove h }

/-- The loop of `reindex` that removes the blocks beyond a gap, for at most so many turns. -/
def dropAfter (gap : ℕ) : ℕ → BlockFile Op → Except ChainError (BlockFile Op)
  | 0, _ => .error .assertion
  | fuel + 1, F =>
    match F.lastId with
    | none => .ok F
    | some id =>
      if id.num ≤ gap then .ok F
      else do
        let F' ← F.remove id
        dropAfter gap fuel F'

/-- The loop of `open` that wipes the blocks above a number, for at most so many turns. It takes the
number and the id of the last block without asking whether there is one left, and does not end at a
block that is not stored under its own id. -/
def wipeAbove (P : Protocol Op R) (blockNo : ℕ) : ℕ → BlockFile Op → Except ChainError (BlockFile Op)
  | 0, _ => .error .assertion
  | fuel + 1, F =>
    match F.last with
    | none => .error .assertion
    | some b =>
      if b.blockNum ≤ blockNo then .ok F
      else do
        let F' ← F.remove (P.blockId b)
        wipeAbove P blockNo fuel F'

/-- The blocks that `open` leaves. -/
def opened (P : Protocol Op R) (blockNo : ℕ) : Except ChainError (BlockFile Op) :=
  if blockNo ≠ 0 ∧ F.last.isSome then wipeAbove P blockNo (F.db.size + 1) F else .ok F

/-- **No gaps**: every number up to that of the last entry with a block has a readable block. -/
def Gapless (P : Protocol Op R) : Prop :=
  ∀ n, 0 < n → (∃ l ∈ F.lastEntry, n ≤ l) → (F.fetchByNumber P n).isSome

variable {F}

/-! ### Entries -/

theorem fetchByNumber_eq_some {P : Protocol Op R} {n : ℕ} {b : SignedBlock Op} :
    F.fetchByNumber P n = some b ↔
      n < F.db.size ∧ F.read n = some b ∧ P.blockId b = F.idAt n := by
  unfold fetchByNumber
  by_cases hsize : F.db.size ≤ n
  · rw [if_pos hsize]
    constructor
    · intro h
      cases h
    · intro h
      exact absurd h.1 (by omega)
  · rw [if_neg hsize, Option.filter_eq_some_iff, decide_eq_true_eq]
    exact ⟨fun h => ⟨by omega, h⟩, fun h => h.2⟩

theorem used_of_read {n : ℕ} {b : SignedBlock Op} (h : F.read n = some b) : F.used n = true := by
  unfold read at h
  split at h
  · cases h
  · exact Option.isSome_of_eq_some h

/-- A block that is fetched by its number has this number. -/
theorem blockNum_of_fetch {P : Protocol Op R} {n : ℕ} {b : SignedBlock Op}
    (h : F.fetchByNumber P n = some b) : b.blockNum = n := by
  obtain ⟨-, hread, hid⟩ := fetchByNumber_eq_some.mp h
  rw [← Protocol.blockId_num P b, hid]
  exact (F.placed n (used_of_read hread)).2.2

theorem lastBelow_eq_some {n l : ℕ} (h : F.lastBelow n = some l) :
    l < n ∧ F.used l = true ∧ ∀ m, l < m → m < n → F.used m = false := by
  induction n with
  | zero => cases h
  | succ n ih =>
    unfold lastBelow at h
    by_cases hused : F.used n = true
    · rw [if_pos hused] at h
      obtain rfl := Option.some.inj h
      exact ⟨Nat.lt_succ_self _, hused, fun m hlm hm => absurd hm (by omega)⟩
    · rw [if_neg hused] at h
      obtain ⟨hlt, hl, hnone⟩ := ih h
      refine ⟨by omega, hl, fun m hlm hm => ?_⟩
      rcases Nat.lt_succ_iff_lt_or_eq.mp hm with hm | rfl
      · exact hnone m hlm hm
      · exact Bool.not_eq_true _ ▸ hused

theorem lastBelow_eq_none {n : ℕ} (h : F.lastBelow n = none) : ∀ m, m < n → F.used m = false := by
  induction n with
  | zero => exact fun m hm => absurd hm (Nat.not_lt_zero m)
  | succ n ih =>
    unfold lastBelow at h
    by_cases hused : F.used n = true
    · rw [if_pos hused] at h
      cases h
    · rw [if_neg hused] at h
      intro m hm
      rcases Nat.lt_succ_iff_lt_or_eq.mp hm with hm | rfl
      · exact ih h m hm
      · exact Bool.not_eq_true _ ▸ hused

/-- An entry with a block is not after the last one. -/
theorem le_lastEntry {n : ℕ} (h : F.used n = true) : ∃ l ∈ F.lastEntry, n ≤ l := by
  have hlt := (F.placed n h).1
  cases hlast : F.lastEntry with
  | none =>
    rw [lastBelow_eq_none hlast n hlt] at h
    cases h
  | some l =>
    refine ⟨l, rfl, ?_⟩
    by_contra hgt
    rw [(lastBelow_eq_some hlast).2.2 n (by omega) hlt] at h
    cases h

theorem lastEntry_placed {l : ℕ} (h : F.lastEntry = some l) :
    l < F.db.size ∧ 0 < l ∧ (F.idAt l).num = l :=
  F.placed l (lastBelow_eq_some h).2.1

/-- The last entry with a block, by what is after it. -/
theorem lastEntry_eq_some {l : ℕ} (hl : F.used l = true) (hnone : ∀ m, l < m → F.used m = false) :
    F.lastEntry = some l := by
  obtain ⟨l', hl', hle⟩ := le_lastEntry hl
  rw [hl']
  rcases Nat.lt_or_eq_of_le hle with hlt | rfl
  · have hused := (lastBelow_eq_some hl').2.1
    rw [hnone l' hlt] at hused
    cases hused
  · rfl

/-! ### Storing blocks -/

/-- Nothing is stored. -/
def empty : BlockFile Op := ⟨{}, fun _ => false, BlockDatabase.placed_empty⟩

/-- `store` of a block under its own id. -/
def store (P : Protocol Op R) (F : BlockFile Op) (b : SignedBlock Op) : BlockFile Op where
  db := F.db.store P (P.blockId b) b
  corrupt := Function.update F.corrupt b.blockNum false
  placed := F.placed.store P (Nat.succ_pos _) b

/-- The file of the given blocks, newest first. -/
def ofBlocks (P : Protocol Op R) (bs : List (SignedBlock Op)) : BlockFile Op :=
  bs.foldr (fun b F => F.store P b) empty

theorem store_db (P : Protocol Op R) (b : SignedBlock Op) : (F.store P b).db =
    { size := max F.db.size (b.blockNum + 1)
      entries := fun n =>
        if n = b.blockNum then { blockId := P.blockId b, block := some b }
        else if n < F.db.size then F.db.entries n
        else {} } := by
  change F.db.store P (P.blockId b) b = _
  unfold BlockDatabase.store
  rw [if_neg (Protocol.blockId_ne_zero P b)]
  rfl

theorem used_store (P : Protocol Op R) (b : SignedBlock Op) (n : ℕ) :
    (F.store P b).used n = true ↔ n = b.blockNum ∨ F.used n = true := by
  unfold used
  rw [store_db]
  dsimp only
  by_cases hnum : n = b.blockNum
  · rw [if_pos hnum]
    exact ⟨fun _ => .inl hnum, fun _ => rfl⟩
  · rw [if_neg hnum]
    by_cases hlt : n < F.db.size
    · rw [if_pos hlt]
      exact ⟨.inr, fun h => h.resolve_left hnum⟩
    · rw [if_neg hlt]
      constructor
      · intro h
        cases h
      · rintro (h | h)
        · exact absurd h hnum
        · exact absurd (F.placed n h).1 hlt

theorem read_store (P : Protocol Op R) (b : SignedBlock Op) (n : ℕ) : (F.store P b).read n =
    if n = b.blockNum then some b else if n < F.db.size then F.read n else none := by
  have hcorrupt : (F.store P b).corrupt n = if n = b.blockNum then false else F.corrupt n :=
    Function.update_apply F.corrupt b.blockNum false n
  unfold read
  rw [hcorrupt, store_db]
  dsimp only
  by_cases hnum : n = b.blockNum
  · rw [if_pos hnum, if_pos hnum, if_pos hnum]
    rfl
  · rw [if_neg hnum, if_neg hnum, if_neg hnum]
    by_cases hlt : n < F.db.size
    · rw [if_pos hlt, if_pos hlt]
    · rw [if_neg hlt, if_neg hlt, ite_self]

theorem idAt_store (P : Protocol Op R) (b : SignedBlock Op) (n : ℕ) : (F.store P b).idAt n =
    if n = b.blockNum then P.blockId b else if n < F.db.size then F.idAt n else .zero := by
  unfold idAt
  rw [store_db]
  dsimp only
  rw [apply_ite IndexEntry.blockId, apply_ite IndexEntry.blockId]

/-- What can be fetched after a block was stored. -/
theorem fetchByNumber_store (P : Protocol Op R) (b : SignedBlock Op) (n : ℕ) :
    (F.store P b).fetchByNumber P n = if n = b.blockNum then some b else F.fetchByNumber P n := by
  have hsize : (F.store P b).db.size = max F.db.size (b.blockNum + 1) := by
    rw [store_db]
  refine Option.ext fun c => ?_
  rw [fetchByNumber_eq_some, hsize, read_store, idAt_store]
  by_cases hnum : n = b.blockNum
  · rw [if_pos hnum, if_pos hnum, if_pos hnum]
    constructor
    · exact fun h => h.2.1
    · intro h
      obtain rfl := Option.some.inj h
      exact ⟨by omega, rfl, rfl⟩
  · rw [if_neg hnum, if_neg hnum, if_neg hnum, fetchByNumber_eq_some]
    by_cases hlt : n < F.db.size
    · rw [if_pos hlt, if_pos hlt]
      exact ⟨fun h => ⟨hlt, h.2⟩, fun h => ⟨by omega, h.2⟩⟩
    · -- beyond the file there was nothing, and now there are empty entries
      rw [if_neg hlt]
      constructor
      · intro h
        cases h.2.1
      · exact fun h => absurd h.1 hlt

/-! ### Beyond a gap -/

/-- The blocks up to a number are left, and no later ones. -/
structure Cut (gap : ℕ) (F F' : BlockFile Op) : Prop where
  size : F'.db.size = F.db.size
  corrupt : F'.corrupt = F.corrupt
  idAt : ∀ n, F'.idAt n = F.idAt n
  below : ∀ n, n ≤ gap → (F'.db.entries n).block = (F.db.entries n).block
  above : ∀ n, gap < n → F'.used n = false

theorem remove_lastId {gap l : ℕ} (hl : F.lastEntry = some l) (hgap : gap < l) :
    ∃ F', F.remove (F.idAt l) = .ok F' ∧ F'.db.size = F.db.size ∧ F'.corrupt = F.corrupt ∧
      (∀ n, F'.idAt n = F.idAt n) ∧
      ∀ n, (F'.db.entries n).block = if n = l then none else (F.db.entries n).block := by
  obtain ⟨hsize, -, hnum⟩ := lastEntry_placed hl
  have hremove : ∃ d, F.db.remove (F.idAt l) = .ok d := by
    unfold BlockDatabase.remove
    rw [if_neg (by omega : ¬ F.db.size ≤ (F.idAt l).num), hnum]
    exact ⟨_, if_pos rfl⟩
  obtain ⟨d, hd⟩ := hremove
  obtain ⟨hdsize, hentries⟩ := BlockDatabase.remove_ok hd
  refine ⟨{ F with db := d, placed := F.placed.remove hd }, ?_, hdsize, rfl,
    fun n => (hentries n).1, fun n => ?_⟩
  · unfold remove
    split
    · next e he =>
      rw [hd] at he
      cases he
    · next d' hd' =>
      obtain rfl : d = d' := Except.ok.inj (hd.symm.trans hd')
      rfl
  · change (d.entries n).block = _
    rw [(hentries n).2, hnum]
    by_cases heq : n = l
    · subst heq
      rw [if_pos rfl, if_pos ⟨rfl, rfl⟩]
    · rw [if_neg heq, if_neg (fun hand => heq hand.1)]

/-- **The blocks beyond a gap are removed**: the loop ends, as each turn takes the last block off. -/
theorem dropAfter_ok (gap : ℕ) : ∀ (fuel : ℕ) (F : BlockFile Op),
    (∀ l ∈ F.lastEntry, l < fuel) → 0 < fuel → ∃ F', dropAfter gap fuel F = .ok F' ∧ Cut gap F F'
  | 0, _, _, h => absurd h (lt_irrefl 0)
  | fuel + 1, F, hfuel, _ => by
    unfold dropAfter lastId
    cases hl : F.lastEntry with
    | none =>
      refine ⟨F, rfl, rfl, rfl, fun _ => rfl, fun _ _ => rfl, fun n _ => ?_⟩
      by_contra hused
      obtain ⟨l, hl', -⟩ := le_lastEntry (Bool.not_eq_false _ ▸ hused)
      rw [hl] at hl'
      cases hl'
    | some l =>
      obtain ⟨-, hpos, hnum⟩ := lastEntry_placed hl
      have hlt : l < fuel + 1 := hfuel l hl
      simp only [Option.map_some, hnum]
      by_cases hgap : l ≤ gap
      · rw [if_pos hgap]
        refine ⟨F, rfl, rfl, rfl, fun _ => rfl, fun _ _ => rfl, fun n hn => ?_⟩
        by_contra hused
        obtain ⟨l', hl', hle⟩ := le_lastEntry (Bool.not_eq_false _ ▸ hused)
        rw [hl] at hl'
        cases hl'
        omega
      · rw [if_neg hgap]
        obtain ⟨F₁, hremove, hsize, hcorrupt, hid, hblock⟩ := remove_lastId hl (by omega : gap < l)
        have hfuel' : ∀ l' ∈ F₁.lastEntry, l' < fuel := by
          intro l' hl'
          have hused : ((F₁.db.entries l').block).isSome = true := (lastBelow_eq_some hl').2.1
          rw [hblock] at hused
          by_cases heq : l' = l
          · rw [if_pos heq] at hused
            cases hused
          · rw [if_neg heq] at hused
            obtain ⟨l'', hl'', hle⟩ := le_lastEntry (F := F) hused
            rw [hl] at hl''
            cases hl''
            omega
        obtain ⟨F', hdrop, hcut⟩ := dropAfter_ok gap fuel F₁ hfuel' (by omega)
        refine ⟨F', ?_, hcut.size.trans hsize, hcut.corrupt.trans hcorrupt,
          fun n => (hcut.idAt n).trans (hid n), fun n hn => ?_, hcut.above⟩
        · rw [hremove]
          exact hdrop
        · rw [hcut.below n hn, hblock, if_neg (by omega : ¬ n = l)]

end BlockFile

/-! ### Replaying -/

/-- What `reindex` skips. -/
def SkipFlags.reindex : SkipFlags where
  witnessSignature := true
  transactionSignatures := true
  transactionDupeCheck := true
  taposCheck := true
  witnessScheduleCheck := true
  authorityCheck := true

/-- `start_block`. -/
def ForkDatabase.startBlock (P : Protocol Op R) (f : ForkDatabase Op) (b : SignedBlock Op) :
    ForkDatabase Op :=
  { f.insert P (.unlinked f.nextHandle b) with
    head := some (.unlinked f.nextHandle b)
    nextHandle := f.nextHandle + 1 }

namespace Database

variable {P : Protocol Op R}

/-- `open` on a wiped object state: the genesis objects, and the last block in the fork database. -/
def openDatabase (P : Protocol Op R) (g : Objects R) (F : BlockFile Op) : Database Op R :=
  { genesis g with
    blockDb := F.db
    forkDb := match F.last with
      | none => {}
      | some b => ForkDatabase.startBlock P {} b }

/-- Apply a block that is stored already. There is no session around it. -/
def replayBlock (C : Checks P) (checkpoints : Checkpoints) (b : SignedBlock Op) :
    DatabaseM Op R Unit := do
  let before ← get
  applyBlockWith C checkpoints .reindex b
  update fun s => { s with chain := (b, before.objects) :: s.chain }

/-- The loop of `reindex` from a number on. It ends at the first number without a readable block,
which is the result. -/
def replay (C : Checks P) (checkpoints : Checkpoints) (F : BlockFile Op) :
    ℕ → ℕ → DatabaseM Op R (Option ℕ)
  | 0, _ => pure none
  | count + 1, i =>
    match F.fetchByNumber P i with
    | none => pure (some i)
    | some b => do
      replayBlock C checkpoints b
      replay C checkpoints F count (i + 1)

/-- `reindex`. The result is the database and the file of its blocks. -/
def reindex (C : Checks P) (checkpoints : Checkpoints) (g : Objects R) (blockNo : ℕ)
    (F : BlockFile Op) : Except ChainError (Database Op R × BlockFile Op) := do
  let F ← F.opened P blockNo
  match F.last with
  | none => .ok (openDatabase P g F, F)
  | some last =>
    match replay C checkpoints F last.blockNum 1 (openDatabase P g F) with
    | .error e _ => .error e
    | .ok none s => .ok (s, F)
    | .ok (some gap) s => do
      let F ← F.dropAfter gap (F.db.size + 1)
      .ok ({ s with blockDb := F.db }, F)

/-- The fork database holds nothing but its head. -/
structure Seeded (i : ForkItem Op) (f : ForkDatabase Op) : Prop where
  head : f.head = some i
  index : f.index = [i]
  maxSize : 0 < f.maxSize

theorem Seeded.setMaxSize {i : ForkItem Op} {f : ForkDatabase Op} (h : Seeded i f) (n : ℕ) :
    Seeded i (f.setMaxSize (n + 1)) := by
  have hkept : f.index.filter (fun j => i.num - (n + 1) ≤ j.num) = [i] := by
    rw [h.index, List.filter_singleton, decide_eq_true (Nat.sub_le i.num (n + 1))]
    rfl
  unfold ForkDatabase.setMaxSize
  rw [h.head]
  exact ⟨rfl, hkept, Nat.succ_pos n⟩

theorem seeded_startBlock (P : Protocol Op R) (b : SignedBlock Op) :
    Seeded (.unlinked 0 b) (ForkDatabase.startBlock P {} b) := ⟨rfl, rfl, Nat.succ_pos 1023⟩

/-- The state after the first `n` blocks were replayed. -/
structure Replayed (P : Protocol Op R) (g : Objects R) (F : BlockFile Op) (n : ℕ) (s : Database Op R) :
    Prop where
  readable : ∀ m, 0 < m → m ≤ n → (F.fetchByNumber P m).isSome
  headBlockNumber : s.objects.headBlockNumber = n
  headBlockId : s.objects.headBlockId = if n = 0 then .zero else F.idAt n
  forkDb : ∀ b, F.last = some b → Seeded (.unlinked 0 b) s.forkDb
  blockDb : s.blockDb = F.db

variable {C : Checks P} {checkpoints : Checkpoints} {g : Objects R} {F : BlockFile Op}

theorem Replayed.genesis (hg : Genesis g) : Replayed P g F 0 (openDatabase P g F) := by
  refine ⟨fun m hm hle => absurd hm (by omega), hg.headBlockNumber, hg.headBlockId, fun b hb => ?_,
    rfl⟩
  unfold openDatabase
  rw [hb]
  exact seeded_startBlock P b

theorem Replayed.block {n : ℕ} {s s' : Database Op R} {b : SignedBlock Op} {u : Unit}
    (h : Replayed P g F n s) (hfetch : F.fetchByNumber P (n + 1) = some b)
    (happly : replayBlock C checkpoints b s = .ok u s') : Replayed P g F (n + 1) s' := by
  unfold replayBlock at happly
  rw [get_bind] at happly
  obtain ⟨_, s₁, hblock, hchain⟩ := bind_eq_ok.mp happly
  obtain rfl := update_eq_ok.mp hchain
  have hconfirms := applyBlockWith_confirms hblock
  have hframe : Frame fun s s' : Database Op R => s'.blockDb = s.blockDb ∧
      ∀ i, Seeded i s.forkDb → Seeded i s'.forkDb :=
    { refl := fun _ => ⟨rfl, fun _ h => h⟩
      trans := fun h₁ h₂ => ⟨h₂.1.trans h₁.1, fun i hi => h₂.2 i (h₁.2 i hi)⟩ }
  obtain ⟨hdb, hfork⟩ := (keeps_applyBlockWith C checkpoints .reindex hframe
    (fun _ _ => ⟨rfl, fun _ h => h⟩) (fun _ _ => ⟨rfl, fun _ h => h⟩)
    (fun _ n => ⟨rfl, fun _ h => h.setMaxSize n⟩) b).of_ok hblock
  refine ⟨fun m hm hle => ?_, ?_, ?_, fun b' hb' => hfork _ (h.forkDb b' hb'), hdb.trans h.blockDb⟩
  · rcases Nat.lt_or_eq_of_le hle with hlt | rfl
    · exact h.readable m hm (by omega)
    · rw [hfetch]
      rfl
  · exact hconfirms.headBlockNumber.trans (BlockFile.blockNum_of_fetch hfetch)
  · rw [if_neg (Nat.succ_ne_zero n)]
    exact hconfirms.headBlockId.trans (BlockFile.fetchByNumber_eq_some.mp hfetch).2.2

/-- **Replaying** goes on to the last number, or up to the first without a readable block. -/
theorem replay_ok : ∀ {count n : ℕ} {s s' : Database Op R} {r : Option ℕ},
    Replayed P g F n s → replay C checkpoints F count (n + 1) s = .ok r s' →
    (r = none ∧ Replayed P g F (n + count) s') ∨
      ∃ k, r = some (k + 1) ∧ k < n + count ∧ Replayed P g F k s' ∧ F.fetchByNumber P (k + 1) = none
  | 0, n, s, s', r, hs, h => by
    obtain ⟨rfl, rfl⟩ := pure_eq_ok.mp h
    exact .inl ⟨rfl, hs⟩
  | count + 1, n, s, s', r, hs, h => by
    unfold replay at h
    cases hfetch : F.fetchByNumber P (n + 1) with
    | none =>
      rw [hfetch] at h
      obtain ⟨rfl, rfl⟩ := pure_eq_ok.mp h
      exact .inr ⟨n, rfl, by omega, hs, hfetch⟩
    | some b =>
      rw [hfetch] at h
      obtain ⟨_, s₁, hblock, hrest⟩ := bind_eq_ok.mp h
      rcases replay_ok (hs.block hfetch hblock) hrest with ⟨rfl, hdone⟩ | ⟨k, rfl, hk, hstop⟩
      · refine .inl ⟨rfl, ?_⟩
        rwa [Nat.add_assoc, Nat.add_comm 1 count] at hdone
      · exact .inr ⟨k, rfl, by omega, hstop⟩

theorem reindex_ok (hg : Genesis g) {blockNo : ℕ} {F₀ F' : BlockFile Op} {s : Database Op R}
    (h : reindex C checkpoints g blockNo F = .ok (s, F')) (hopened : F.opened P blockNo = .ok F₀) :
    (F₀.last = none ∧ F' = F₀ ∧ s = openDatabase P g F₀) ∨
      ∃ last, F₀.last = some last ∧
        ((Replayed P g F₀ last.blockNum s ∧ F' = F₀) ∨
          ∃ k s₁, k < last.blockNum ∧ Replayed P g F₀ k s₁ ∧ F₀.fetchByNumber P (k + 1) = none ∧
            BlockFile.Cut (k + 1) F₀ F' ∧ s = { s₁ with blockDb := F'.db }) := by
  unfold reindex at h
  rw [hopened] at h
  change (match F₀.last with
    | none => _
    | some last => _ : Except ChainError (Database Op R × BlockFile Op)) = _ at h
  cases hlast : F₀.last with
  | none =>
    rw [hlast] at h
    cases h
    exact .inl ⟨rfl, rfl, rfl⟩
  | some last =>
    rw [hlast] at h
    refine .inr ⟨last, rfl, ?_⟩
    dsimp only at h
    cases hreplay : replay C checkpoints F₀ last.blockNum 1 (openDatabase P g F₀) with
    | error e s' =>
      rw [hreplay] at h
      cases h
    | ok r s₁ =>
      rw [hreplay] at h
      rcases replay_ok (.genesis hg) hreplay with ⟨rfl, hdone⟩ | ⟨k, rfl, hk, hstop, hnone⟩
      · cases h
        rw [Nat.zero_add] at hdone
        exact .inl ⟨hdone, rfl⟩
      · obtain ⟨F₁, hdrop, hcut⟩ := BlockFile.dropAfter_ok (k + 1) (F₀.db.size + 1) F₀
          (fun l hl => (BlockFile.lastEntry_placed hl).1.trans (Nat.lt_succ_self _))
          (Nat.succ_pos _)
        dsimp only at h
        rw [hdrop] at h
        cases h
        refine .inr ⟨k, s₁, ?_, hstop, hnone, hcut, rfl⟩
        rwa [Nat.zero_add] at hk

end Database

end FinChain.Chain
