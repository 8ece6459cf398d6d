import FinChain.Chain.Reindex

/-!
# The fork point of two blocks

`fetch_branch_from` walks down from two blocks by the weak pointers to their predecessors. It first takes the
higher one to the number of the other one, and then both in step until they have the same
predecessor. The items that a walk comes to are those an item reaches (`Reaches`), and the walks end together if
they reach two items with the same predecessor (`Joins`), in particular if they reach the same item. Without that, a pointer
is missing on the way: the item was dropped when the window of the head moved on, or the predecessor
was not there when the block came.

As the items of both walks have the same number, two different ones stay different until they have the same
predecessor. A block is on both branches only if the walks have met when they begin to go in step, and then one of
the two blocks is an ancestor of the other.
-/

namespace FinChain.Chain

variable {Op R : Type} {P : Protocol Op R}

namespace ForkDatabase

variable {f f' : ForkDatabase Op}

/-- The databases that are built by calls of `start_block` and `push_block`. A call of `push_block` that throws
leaves the database as it is. -/
inductive Built (P : Protocol Op R) : ForkDatabase Op → Prop
  | empty (maxSize : ℕ) : Built P { maxSize := maxSize }
  | startBlock {f : ForkDatabase Op} (b : SignedBlock Op) : Built P f → Built P (f.startBlock P b)
  | pushBlock {f f' : ForkDatabase Op} {b : SignedBlock Op} : Built P f → f.pushBlock P b = .ok f' → Built P f'

theorem Linked.startBlock (h : f.Linked P) (b : SignedBlock Op) : (f.startBlock P b).Linked P := by
  have hitem : (ForkItem.unlinked f.nextHandle b).WellLinked P := trivial
  refine h.of_subset fun i hi => ?_
  have hinsert : (∀ i ∈ (f.insert P (.unlinked f.nextHandle b)).index,
      i = .unlinked f.nextHandle b ∨ i ∈ f.index) ∧ (f.insert P (.unlinked f.nextHandle b)).held = f.held := by
    unfold insert
    split
    · exact ⟨fun i hi => .inr hi, rfl⟩
    · exact ⟨fun i hi => List.mem_cons.mp hi, rfl⟩
  simp only [ForkDatabase.startBlock, hinsert.2, Option.toList_some, List.mem_append, List.mem_singleton] at hi
  rcases hi with (hi | rfl) | hi
  · rcases hinsert.1 i hi with rfl | hi
    · exact .inr hitem
    · exact .inl (by simp [hi])
  · exact .inr hitem
  · exact .inl (by simp [hi])

theorem Built.linked (h : Built P f) : f.Linked P := by
  induction h with
  | empty maxSize => exact fun i hi => absurd hi (by simp)
  | startBlock b _ ih => exact ih.startBlock b
  | pushBlock _ hpush ih => exact ih.pushBlock hpush

/-! ### What a walk comes to -/

/-- The weak pointers lead from an item to another one. -/
inductive Reaches (f : ForkDatabase Op) : ForkItem Op → ForkItem Op → Prop
  | refl (i) : Reaches f i i
  | step {i p c} : f.lock i = some p → Reaches f p c → Reaches f i c

/-- The chains of two items lead to items with the same predecessor. -/
def Joins (f : ForkDatabase Op) (i j : ForkItem Op) : Prop :=
  ∃ a b, f.Reaches i a ∧ f.Reaches j b ∧ a.data.previous = b.data.previous

theorem Joins.of_meet {i j c : ForkItem Op} (hi : f.Reaches i c) (hj : f.Reaches j c) : f.Joins i j :=
  ⟨c, c, hi, hj, rfl⟩

/-- The block of `j` is on the chain of `i`. -/
def Ancestor (P : Protocol Op R) (f : ForkDatabase Op) (i j : ForkItem Op) : Prop :=
  ∃ c, f.Reaches i c ∧ c.id P = j.id P

theorem Reaches.trans {i j k : ForkItem Op} (h : f.Reaches i j) (h' : f.Reaches j k) : f.Reaches i k := by
  induction h with
  | refl i => exact h'
  | step hlock _ ih => exact .step hlock (ih h')

theorem num_of_lock {i p : ForkItem Op} (hi : i.WellLinked P) (h : f.lock i = some p) : i.num = p.num + 1 := by
  obtain ⟨hid, -⟩ := lock_eq_some hi h
  show i.data.previous.num + 1 = p.num + 1
  rw [← hid]
  rfl

theorem Reaches.wellLinked {i c : ForkItem Op} (h : f.Reaches i c) (hi : i.WellLinked P) : c.WellLinked P := by
  induction h with
  | refl i => exact hi
  | step hlock _ ih => exact ih (lock_eq_some hi hlock).2

/-- What an item reaches is below it, unless it is the item itself. -/
theorem Reaches.eq_or_num_lt {i c : ForkItem Op} (h : f.Reaches i c) (hi : i.WellLinked P) :
    i = c ∨ ∃ p, f.lock i = some p ∧ f.Reaches p c ∧ c.num < i.num := by
  induction h with
  | refl i => exact .inl rfl
  | step hlock hreaches ih =>
    have hnum := num_of_lock hi hlock
    refine .inr ⟨_, hlock, hreaches, ?_⟩
    rcases ih (lock_eq_some hi hlock).2 with rfl | ⟨-, -, -, hlt⟩ <;> omega

theorem Reaches.num_le {i c : ForkItem Op} (h : f.Reaches i c) (hi : i.WellLinked P) : c.num ≤ i.num := by
  rcases h.eq_or_num_lt hi with rfl | ⟨-, -, -, hlt⟩
  · exact le_rfl
  · exact hlt.le

theorem num_eq_of_previous_eq {i j : ForkItem Op} (h : i.data.previous = j.data.previous) : i.num = j.num :=
  congrArg (fun id => id.num + 1) h

theorem num_eq_of_id_eq {i j : ForkItem Op} (h : i.id P = j.id P) : i.num = j.num := congrArg BlockId.num h

/-! ### The walk to a number -/

/-- The steps of the walk, in terms of the pointer. -/
theorem walkDown_eq (f : ForkDatabase Op) (num : ℕ) (i : ForkItem Op) :
    f.walkDown num i = if num < i.num then
      match f.lock i with
      | none => .error .assertion
      | some p => f.walkDown num p >>= fun r => .ok (i :: r.1, r.2)
    else .ok ([], i) := by
  cases i with
  | unlinked h b => rfl
  | linked h b p =>
    rw [walkDown]
    by_cases halive : f.alive p.handle = true
    · simp only [lock, halive, if_true]
      rfl
    · simp only [lock, halive]
      rfl

/-- The walk comes down to the number of an item below it. -/
theorem walkDown_returns {num : ℕ} {i a : ForkItem Op} (h : f.Reaches i a) (hi : i.WellLinked P) (ha : a.num ≤ num) :
    ∃ l last, f.walkDown num i = .ok (l, last) ∧ f.Reaches last a := by
  induction h with
  | refl i =>
    rw [walkDown_eq, if_neg (not_lt.mpr ha)]
    exact ⟨[], i, rfl, .refl i⟩
  | @step i p a hlock hreaches ih =>
    obtain ⟨-, hp⟩ := lock_eq_some hi hlock
    by_cases hlt : num < i.num
    · obtain ⟨l, last, hwalk, hlast⟩ := ih hp ha
      refine ⟨i :: l, last, ?_, hlast⟩
      rw [walkDown_eq, if_pos hlt, hlock]
      show (f.walkDown num p >>= _) = _
      rw [hwalk]
      rfl
    · rw [walkDown_eq, if_neg hlt]
      exact ⟨[], i, rfl, .step hlock hreaches⟩

/-- Where the walk has been, and where it ends. -/
theorem walkDown_reaches {num : ℕ} {l : List (ForkItem Op)} {i last : ForkItem Op} (hi : i.WellLinked P)
    (h : f.walkDown num i = .ok (l, last)) :
    f.Reaches i last ∧ (∀ k ∈ l, f.Reaches i k ∧ num < k.num) ∧
      (i.num ≤ num ∧ l = [] ∧ last = i ∨ num < i.num ∧ last.num = num) := by
  induction l generalizing i with
  | nil =>
    rw [walkDown_eq] at h
    by_cases hlt : num < i.num
    · rw [if_pos hlt] at h
      cases hlock : f.lock i with
      | none => exact absurd h (by simp [hlock])
      | some p =>
        rw [hlock] at h
        obtain ⟨r, -, hr⟩ := Exec.except_bind_eq_ok.mp h
        exact absurd (congrArg Prod.fst (Except.ok.inj hr)) (List.cons_ne_nil _ _)
    · rw [if_neg hlt] at h
      obtain rfl : i = last := congrArg Prod.snd (Except.ok.inj h)
      exact ⟨.refl i, fun k hk => absurd hk List.not_mem_nil, .inl ⟨not_lt.mp hlt, rfl, rfl⟩⟩
  | cons k l ih =>
    rw [walkDown_eq] at h
    by_cases hlt : num < i.num
    · rw [if_pos hlt] at h
      cases hlock : f.lock i with
      | none => exact absurd h (by simp [hlock])
      | some p =>
        rw [hlock] at h
        obtain ⟨r, hwalk, hr⟩ := Exec.except_bind_eq_ok.mp h
        obtain ⟨hcons, rfl⟩ := Prod.mk.inj (Except.ok.inj hr)
        obtain ⟨rfl, rfl⟩ := List.cons.inj hcons
        obtain ⟨hlast, hall, hend⟩ := ih (lock_eq_some hi hlock).2 hwalk
        refine ⟨.step hlock hlast, fun k hk => ?_, .inr ⟨hlt, ?_⟩⟩
        · rcases List.mem_cons.mp hk with rfl | hk
          · exact ⟨.refl k, hlt⟩
          · exact ⟨.step hlock (hall k hk).1, (hall k hk).2⟩
        · -- the predecessor is one lower, so it is not below the number yet
          have hnum := num_of_lock hi hlock
          rcases hend with ⟨hle, -, hsame⟩ | ⟨-, hsame⟩
          · rw [hsame]
            omega
          · exact hsame
    · rw [if_neg hlt] at h
      exact absurd (congrArg Prod.fst (Except.ok.inj h)) (List.cons_ne_nil _ _).symm

/-! ### The walk in step -/

/-- The steps of the walk, in terms of the pointers. -/
theorem walkBoth_eq (f : ForkDatabase Op) (i j : ForkItem Op) :
    f.walkBoth i j = if i.data.previous = j.data.previous then .ok ([i], [j]) else
      match f.lock i, f.lock j with
      | some p, some q => f.walkBoth p q >>= fun r => .ok (i :: r.1, j :: r.2)
      | _, _ => .error .assertion := by
  cases i with
  | unlinked h b => rfl
  | linked h b p =>
    rw [walkBoth]
    by_cases halive : f.alive p.handle = true
    · have hlock : f.lock (.linked h b p) = some p := if_pos halive
      rw [hlock, if_pos halive]
      cases f.lock j <;> rfl
    · have hlock : f.lock (.linked h b p) = none := if_neg halive
      rw [hlock, if_neg halive]
      rfl

theorem walkBoth_eq_ok {i j : ForkItem Op} {l l' : List (ForkItem Op)} (h : f.walkBoth i j = .ok (l, l')) :
    i.data.previous = j.data.previous ∧ l = [i] ∧ l' = [j] ∨
      i.data.previous ≠ j.data.previous ∧ ∃ p q m m', f.lock i = some p ∧ f.lock j = some q ∧
        f.walkBoth p q = .ok (m, m') ∧ l = i :: m ∧ l' = j :: m' := by
  rw [walkBoth_eq] at h
  by_cases hsame : i.data.previous = j.data.previous
  · rw [if_pos hsame] at h
    obtain ⟨rfl, rfl⟩ := Prod.mk.inj (Except.ok.inj h)
    exact .inl ⟨hsame, rfl, rfl⟩
  · rw [if_neg hsame] at h
    cases hp : f.lock i with
    | none =>
      rw [hp] at h
      exact absurd h (by simp)
    | some p =>
      cases hq : f.lock j with
      | none =>
        rw [hp, hq] at h
        exact absurd h (by simp)
      | some q =>
        rw [hp, hq] at h
        obtain ⟨r, hr, hend⟩ := Exec.except_bind_eq_ok.mp h
        obtain ⟨rfl, rfl⟩ := Prod.mk.inj (Except.ok.inj hend)
        exact .inr ⟨hsame, p, q, r.1, r.2, rfl, rfl, hr, rfl, rfl⟩

theorem walkBoth_returns {i j a b : ForkItem Op} (hia : f.Reaches i a) (hjb : f.Reaches j b)
    (hi : i.WellLinked P) (hj : j.WellLinked P) (hnum : i.num = j.num)
    (hjoin : a.data.previous = b.data.previous) : ∃ r, f.walkBoth i j = .ok r := by
  have hab := num_eq_of_previous_eq hjoin
  induction hia generalizing j with
  | refl i =>
    -- the other walk is at the same number, and so at its end as well
    rcases hjb.eq_or_num_lt hj with rfl | ⟨-, -, -, hlt⟩
    · rw [walkBoth_eq, if_pos hjoin]
      exact ⟨_, rfl⟩
    · omega
  | @step i p a hlock hreaches ih =>
    obtain ⟨-, hp⟩ := lock_eq_some hi hlock
    have hnumi := num_of_lock hi hlock
    have hle := hreaches.num_le hp
    rcases hjb.eq_or_num_lt hj with rfl | ⟨q, hlockj, hreachesj, -⟩
    · omega
    · obtain ⟨-, hq⟩ := lock_eq_some hj hlockj
      have hnumj := num_of_lock hj hlockj
      rw [walkBoth_eq, hlock, hlockj]
      split
      · exact ⟨_, rfl⟩
      · obtain ⟨r, hr⟩ := ih hreachesj hp hq (by omega) hjoin hab
        exact ⟨_, Exec.except_bind_eq_ok.mpr ⟨r, hr, rfl⟩⟩

/-- What a walk in step returns. Two items with one id are only on both lists if the walk begins with them. -/
structure InStep (P : Protocol Op R) (f : ForkDatabase Op) (i j : ForkItem Op) (l l' : List (ForkItem Op)) :
    Prop where
  left : ∀ k ∈ l, f.Reaches i k
  right : ∀ k ∈ l', f.Reaches j k
  joins : f.Joins i j
  disjoint : ∀ x ∈ l, ∀ y ∈ l', x.id P = y.id P → i.id P = j.id P

theorem walkBoth_inStep {l l' : List (ForkItem Op)} {i j : ForkItem Op} (hi : i.WellLinked P) (hj : j.WellLinked P)
    (hnum : i.num = j.num) (h : f.walkBoth i j = .ok (l, l')) : InStep P f i j l l' := by
  induction l generalizing i j l' with
  | nil =>
    rcases walkBoth_eq_ok h with ⟨-, hl, -⟩ | ⟨-, _, _, _, _, -, -, -, hl, -⟩
    · exact absurd hl (by simp)
    · exact absurd hl (by simp)
  | cons k l ih =>
    rcases walkBoth_eq_ok h with ⟨hsame, hl, rfl⟩ | ⟨hdiff, p, q, m, m', hp, hq, hwalk, hl, rfl⟩
    · rw [hl]
      refine ⟨fun k hk => ?_, fun k hk => ?_, ⟨i, j, .refl i, .refl j, hsame⟩, fun x hx y hy hid => ?_⟩
      · rw [List.mem_singleton.mp hk]
        exact .refl i
      · rw [List.mem_singleton.mp hk]
        exact .refl j
      · rwa [List.mem_singleton.mp hx, List.mem_singleton.mp hy] at hid
    · obtain ⟨rfl, rfl⟩ := List.cons.inj hl
      obtain ⟨hpid, hpl⟩ := lock_eq_some hi hp
      obtain ⟨hqid, hql⟩ := lock_eq_some hj hq
      have hpnum := num_of_lock hi hp
      have hqnum := num_of_lock hj hq
      have hrest := ih hpl hql (by omega) hwalk
      obtain ⟨a, b, hpa, hqb, hjoin⟩ := hrest.joins
      refine ⟨fun x hx => ?_, fun y hy => ?_, ⟨a, b, .step hp hpa, .step hq hqb, hjoin⟩, fun x hx y hy hid => ?_⟩
      · rcases List.mem_cons.mp hx with rfl | hx
        · exact .refl x
        · exact .step hp (hrest.left x hx)
      · rcases List.mem_cons.mp hy with rfl | hy
        · exact .refl y
        · exact .step hq (hrest.right y hy)
      · have hxy := num_eq_of_id_eq hid
        rcases List.mem_cons.mp hx with rfl | hx <;> rcases List.mem_cons.mp hy with rfl | hy
        · exact hid
        · -- the one is at the beginning and the other below it
          have := (hrest.right y hy).num_le hql
          omega
        · have := (hrest.left x hx).num_le hpl
          omega
        · -- both are below, so the predecessors would be the same
          exact absurd ((hpid.symm.trans (hrest.disjoint x hx y hy hid)).trans hqid) hdiff

/-! ### The branches -/

/-- The branches of two items. -/
structure Branches (P : Protocol Op R) (f : ForkDatabase Op) (i j : ForkItem Op) (l l' : List (ForkItem Op)) :
    Prop where
  /-- Both are nonempty, and go from one predecessor to the next until they have come to the same block. -/
  left_ne : l ≠ []
  right_ne : l' ≠ []
  paths : ∃ last, Path P (i.id P) l last ∧ Path P (j.id P) l' last
  /-- They are the items that the weak pointers lead to. -/
  left : ∀ k ∈ l, f.Reaches i k
  right : ∀ k ∈ l', f.Reaches j k
  /-- No block is on both of them, unless one of the two blocks is an ancestor of the other or the same. -/
  disjoint : (∃ x ∈ l, ∃ y ∈ l', x.id P = y.id P) → f.Ancestor P i j ∨ f.Ancestor P j i

theorem fetchBranchFrom_eq (f : ForkDatabase Op) {first second : BlockId} {i j : ForkItem Op}
    (hi : f.find P first = some i) (hj : f.find P second = some j) :
    f.fetchBranchFrom P first second = f.walkDown j.num i >>= fun r => f.walkDown r.2.num j >>= fun r' =>
      f.walkBoth r.2 r'.2 >>= fun m => .ok (r.1 ++ m.1, r'.1 ++ m.2) := by
  unfold fetchBranchFrom
  rw [hi, hj]

/-- Where the two walks to a number leave off: at least one of them has not moved, and both are at one number. -/
theorem level_of_walks {i i' j j' : ForkItem Op} {l l' : List (ForkItem Op)}
    (hend : i.num ≤ j.num ∧ l = [] ∧ i' = i ∨ j.num < i.num ∧ i'.num = j.num)
    (hend' : j.num ≤ i'.num ∧ l' = [] ∧ j' = j ∨ i'.num < j.num ∧ j'.num = i'.num) :
    i'.num = j'.num ∧ (l = [] ∧ i' = i ∨ l' = [] ∧ j' = j) := by
  rcases hend with ⟨hle, hl, rfl⟩ | ⟨hlt, hsame⟩
  · rcases hend' with ⟨hle', hl', rfl⟩ | ⟨-, hsame'⟩
    · exact ⟨le_antisymm hle hle', .inl ⟨hl, rfl⟩⟩
    · exact ⟨hsame'.symm, .inl ⟨hl, rfl⟩⟩
  · rcases hend' with ⟨-, hl', rfl⟩ | ⟨hlt', -⟩
    · exact ⟨hsame, .inr ⟨hl', rfl⟩⟩
    · exact absurd hsame (Nat.ne_of_lt hlt')

theorem fetchBranchFrom_returns (hf : f.Linked P) {first second : BlockId} {i j : ForkItem Op}
    (hi : f.find P first = some i) (hj : f.find P second = some j) (h : f.Joins i j) :
    ∃ l l', f.fetchBranchFrom P first second = .ok (l, l') := by
  obtain ⟨a, b, hia, hjb, hjoin⟩ := h
  have hil := (hf.find hi).1
  have hjl := (hf.find hj).1
  have hab := num_eq_of_previous_eq hjoin
  have haj : a.num ≤ j.num := hab ▸ hjb.num_le hjl
  obtain ⟨l, i', hwalk, hia'⟩ := walkDown_returns hia hil haj
  obtain ⟨hii', -, hend⟩ := walkDown_reaches hil hwalk
  have hil' := hii'.wellLinked hil
  have hbi : b.num ≤ i'.num := hab ▸ hia'.num_le hil'
  obtain ⟨l', j', hwalk', hjb'⟩ := walkDown_returns hjb hjl hbi
  obtain ⟨hjj', -, hend'⟩ := walkDown_reaches hjl hwalk'
  have hlevel := level_of_walks hend hend'
  obtain ⟨r, hr⟩ := walkBoth_returns hia' hjb' hil' (hjj'.wellLinked hjl) hlevel.1 hjoin
  refine ⟨l ++ r.1, l' ++ r.2, ?_⟩
  rw [fetchBranchFrom_eq f hi hj]
  exact Exec.except_bind_eq_ok.mpr ⟨_, hwalk, Exec.except_bind_eq_ok.mpr ⟨_, hwalk', Exec.except_bind_eq_ok.mpr ⟨_, hr, rfl⟩⟩⟩

/-- What is returned are the branches of chains that join. -/
theorem branches_of_fetchBranchFrom (hf : f.Linked P) {first second : BlockId} {l l' : List (ForkItem Op)}
    (h : f.fetchBranchFrom P first second = .ok (l, l')) :
    ∃ i j, f.find P first = some i ∧ f.find P second = some j ∧ f.Joins i j ∧ Branches P f i j l l' := by
  obtain ⟨hne, hne', -, last, hpath, hpath'⟩ := fetchBranchFrom_path hf h
  have hfound : ∃ i j, f.find P first = some i ∧ f.find P second = some j := by
    unfold fetchBranchFrom at h
    split at h
    · next i j hi hj => exact ⟨i, j, hi, hj⟩
    · exact absurd h (by simp)
  obtain ⟨i, j, hi, hj⟩ := hfound
  obtain ⟨hil, hiid⟩ := hf.find hi
  obtain ⟨hjl, hjid⟩ := hf.find hj
  rw [fetchBranchFrom_eq f hi hj] at h
  obtain ⟨⟨l₁, i'⟩, hwalk, h₁⟩ := Exec.except_bind_eq_ok.mp h
  obtain ⟨⟨l₁', j'⟩, hwalk', h₂⟩ := Exec.except_bind_eq_ok.mp h₁
  obtain ⟨⟨m, m'⟩, hboth, hlists⟩ := Exec.except_bind_eq_ok.mp h₂
  obtain ⟨rfl, rfl⟩ := Prod.mk.inj (Except.ok.inj hlists)
  obtain ⟨hii', hall, hend⟩ := walkDown_reaches hil hwalk
  obtain ⟨hjj', hall', hend'⟩ := walkDown_reaches hjl hwalk'
  have hil' := hii'.wellLinked hil
  have hjl' := hjj'.wellLinked hjl
  obtain ⟨hnum, hmoved⟩ := level_of_walks hend hend'
  have hstep := walkBoth_inStep hil' hjl' hnum hboth
  obtain ⟨a, b, hia, hjb, hjoin⟩ := hstep.joins
  refine ⟨i, j, hi, hj, ⟨a, b, hii'.trans hia, hjj'.trans hjb, hjoin⟩, hne, hne',
    ⟨last, hiid ▸ hpath, hjid ▸ hpath'⟩, fun k hk => ?_, fun k hk => ?_, ?_⟩
  · exact (List.mem_append.mp hk).elim (fun hk => (hall k hk).1) fun hk => hii'.trans (hstep.left k hk)
  · exact (List.mem_append.mp hk).elim (fun hk => (hall' k hk).1) fun hk => hjj'.trans (hstep.right k hk)
  · rintro ⟨x, hx, y, hy, hid⟩
    have hxy := num_eq_of_id_eq hid
    rcases hmoved with ⟨rfl, rfl⟩ | ⟨rfl, rfl⟩
    · -- the second walk has moved, and what it passed is higher than the first block
      have hxm : x ∈ m := hx
      have hxnum := (hstep.left x hxm).num_le hil
      rcases List.mem_append.mp hy with hy | hy
      · have := (hall' y hy).2
        omega
      · exact .inr ⟨j', hjj', (hstep.disjoint x hxm y hy hid).symm⟩
    · have hym : y ∈ m' := hy
      have hynum := (hstep.right y hym).num_le hjl
      rcases List.mem_append.mp hx with hx | hx
      · have := (hall x hx).2
        omega
      · exact .inl ⟨i', hii', hstep.disjoint x hx y hym hid⟩

/-- **The fork point is found.** In every database that is built by `start_block` and `push_block`, two blocks whose
chains join have branches, and what is returned are always the branches of the two blocks. If the pointers do not lead
that far, or there is no such block, an exception is thrown. -/
theorem fetch_branch_from_finds_fork_point {f : ForkDatabase Op} (hf : Built P f) (first second : BlockId) :
    (∀ i j, f.find P first = some i → f.find P second = some j → f.Joins i j →
      ∃ l l', f.fetchBranchFrom P first second = .ok (l, l') ∧ Branches P f i j l l') ∧
    ((¬ ∃ i j, f.find P first = some i ∧ f.find P second = some j ∧ f.Joins i j) →
      ∃ e, f.fetchBranchFrom P first second = .error e) := by
  refine ⟨fun i j hi hj hjoin => ?_, fun hnot => ?_⟩
  · obtain ⟨l, l', h⟩ := fetchBranchFrom_returns hf.linked hi hj hjoin
    obtain ⟨i', j', hi', hj', -, hbranches⟩ := branches_of_fetchBranchFrom hf.linked h
    obtain rfl : i = i' := Option.some.inj (hi.symm.trans hi')
    obtain rfl : j = j' := Option.some.inj (hj.symm.trans hj')
    exact ⟨l, l', h, hbranches⟩
  · cases h : f.fetchBranchFrom P first second with
    | error e => exact ⟨e, rfl⟩
    | ok r =>
      obtain ⟨l, l'⟩ := r
      obtain ⟨i, j, hi, hj, hjoin, -⟩ := branches_of_fetchBranchFrom hf.linked h
      exact absurd ⟨i, j, hi, hj, hjoin⟩ hnot

/-! ### A fork -/

private def stem : SignedBlock ℕ := .empty .zero 1 1
private def left₂ : SignedBlock ℕ := .empty (Protocol.permissive.blockId stem) 2 1
private def left₃ : SignedBlock ℕ := .empty (Protocol.permissive.blockId left₂) 3 1
private def right₂ : SignedBlock ℕ := .empty (Protocol.permissive.blockId stem) 3 2

private def stemItem : ForkItem ℕ := .unlinked 0 stem
private def leftItem₂ : ForkItem ℕ := .linked 1 left₂ stemItem
private def leftItem₃ : ForkItem ℕ := .linked 2 left₃ leftItem₂
private def rightItem₂ : ForkItem ℕ := .linked 3 right₂ stemItem

private def forked : ForkDatabase ℕ where
  maxSize := 4
  index := [rightItem₂, leftItem₃, leftItem₂, stemItem]
  head := some leftItem₃
  nextHandle := 4

private theorem built_forked : Built .permissive forked := by
  have hstem : Built .permissive (ForkDatabase.startBlock .permissive { maxSize := 4 } stem) :=
    (Built.empty 4).startBlock stem
  have hleft₂ : Built .permissive
      { maxSize := 4, index := [leftItem₂, stemItem], head := some leftItem₂, nextHandle := 2 } :=
    hstem.pushBlock (b := left₂) rfl
  have hleft₃ : Built .permissive
      { maxSize := 4, index := [leftItem₃, leftItem₂, stemItem], head := some leftItem₃, nextHandle := 3 } :=
    hleft₂.pushBlock (b := left₃) rfl
  exact hleft₃.pushBlock (b := right₂) rfl

/-- A block at height three and a rival of its predecessor have their fork point at the common block below. -/
theorem fetch_branch_from_finds_fork_point_forked :
    ∃ l l', forked.fetchBranchFrom .permissive (Protocol.permissive.blockId left₃)
        (Protocol.permissive.blockId right₂) = .ok (l, l') ∧ Branches .permissive forked leftItem₃ rightItem₂ l l' := by
  apply (fetch_branch_from_finds_fork_point built_forked (Protocol.permissive.blockId left₃)
    (Protocol.permissive.blockId right₂)).1 leftItem₃ rightItem₂ rfl rfl
  exact Joins.of_meet (c := stemItem) (.step rfl (.step rfl (.refl _))) (.step rfl (.refl _))

end ForkDatabase

end FinChain.Chain
