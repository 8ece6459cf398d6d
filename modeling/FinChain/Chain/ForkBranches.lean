import FinChain.Chain.ForkDatabase

/-!
# Branches of the fork database

An item of the fork database is linked to the item of its predecessor, by id (`WellLinked`), and
every operation keeps this true of all items that are still held by somebody (`Linked`). The two
branches `fetch_branch_from` returns are therefore paths: they start at the given blocks, each
item is followed by the one of its predecessor, and they end at the same block
(`fetchBranchFrom_path`).
-/

namespace FinChain.Chain

variable {Op R : Type} {P : Protocol Op R}

/-- The item and all items behind it are linked to the items of their predecessors. -/
def ForkItem.WellLinked (P : Protocol Op R) : ForkItem Op → Prop
  | .unlinked _ _ => True
  | .linked _ b p => p.id P = b.previous ∧ p.WellLinked P

/-- `Path P first l last`: a run of items from the block `first` down, each followed by its
predecessor, where `last` is the predecessor of the last item. -/
def Path (P : Protocol Op R) : BlockId → List (ForkItem Op) → BlockId → Prop
  | first, [], last => first = last
  | first, i :: l, last => i.id P = first ∧ Path P i.data.previous l last

theorem Path.append : ∀ {l l' : List (ForkItem Op)} {a b c : BlockId},
    Path P a l b → Path P b l' c → Path P a (l ++ l') c
  | [], _, _, _, _, h, h' => by
    cases h
    exact h'
  | _ :: _, _, _, _, _, h, h' => ⟨h.1, h.2.append h'⟩

/-- Every item of a path is one block number below the one before it. -/
theorem Path.num_eq : ∀ {l : List (ForkItem Op)} {a b : BlockId}, Path P a l b →
    a.num = b.num + l.length
  | [], _, _, h => by
    cases h
    rfl
  | i :: l, a, b, h => by
    have hnum : a.num = i.data.previous.num + 1 := by
      rw [← h.1]
      rfl
    have ih := h.2.num_eq
    rw [List.length_cons]
    omega

theorem Path.getLast? : ∀ {l : List (ForkItem Op)} {a b : BlockId}, Path P a l b → l ≠ [] →
    l.getLast?.map (fun i => i.data.previous) = some b
  | [], _, _, _, hne => absurd rfl hne
  | [_], _, _, h, _ => congrArg some h.2
  | _ :: j :: l, _, _, h, _ => by
    rw [List.getLast?_cons_cons]
    exact h.2.getLast? (List.cons_ne_nil j l)

namespace ForkDatabase

variable {f f' : ForkDatabase Op}

/-- All items somebody still holds are linked. -/
def Linked (P : Protocol Op R) (f : ForkDatabase Op) : Prop :=
  ∀ i ∈ f.index ++ f.head.toList ++ f.held, i.WellLinked P

/-- Items that were held before are linked afterwards. -/
theorem Linked.of_subset (h : f.Linked P) (hsub : ∀ i ∈ f'.index ++ f'.head.toList ++ f'.held,
    i ∈ f.index ++ f.head.toList ++ f.held ∨ i.WellLinked P) : f'.Linked P :=
  fun i hi => (hsub i hi).elim (h i) fun hlinked => hlinked

theorem Linked.find (h : f.Linked P) {id : BlockId} {i : ForkItem Op} (hi : f.find P id = some i) :
    i.WellLinked P ∧ i.id P = id := by
  refine ⟨h i ?_, by simpa using List.find?_some hi⟩
  have := List.mem_of_find?_eq_some hi
  simp [this]

theorem link_data {b : SignedBlock Op} {item : ForkItem Op} (h : f.link P b = .ok item) :
    item.data = b := by
  unfold link at h
  split at h
  · cases h
    rfl
  · split at h
    · split at h
      · cases h
        rfl
      · split at h <;> cases h
        rfl
    · cases h

theorem Linked.link (h : f.Linked P) {b : SignedBlock Op} {item : ForkItem Op}
    (hlink : f.link P b = .ok item) : item.WellLinked P := by
  unfold ForkDatabase.link at hlink
  split at hlink
  · cases hlink
    trivial
  · split at hlink
    · split at hlink
      · cases hlink
        trivial
      · split at hlink
        · cases hlink
        · next p hp =>
          cases hlink
          obtain ⟨hlinked, hid⟩ := h.find hp
          exact ⟨hid, hlinked⟩
    · cases hlink

/-- What `push_block` does to the head: a block higher than the head becomes the head. -/
theorem add_head (f : ForkDatabase Op) (item : ForkItem Op) :
    (f.add P item).head = match f.head with
      | none => some item
      | some head => if head.num < item.num then some item else some head := by
  have hinsert : (f.insert P item).head = f.head := by
    unfold insert
    split <;> rfl
  cases hh : f.head with
  | none => simp [add, hinsert, hh]
  | some head =>
    by_cases hlt : head.num < item.num
    · simp [add, hinsert, hh, hlt]
    · simp [add, hinsert, hh, hlt]

theorem add_subset (f : ForkDatabase Op) (item : ForkItem Op) :
    (∀ i ∈ (f.add P item).index, i = item ∨ i ∈ f.index) ∧ (f.add P item).held = f.held := by
  have hinsert : (∀ i ∈ (f.insert P item).index, i = item ∨ i ∈ f.index) ∧
      (f.insert P item).held = f.held ∧ (f.insert P item).head = f.head := by
    unfold insert
    split
    · exact ⟨fun i hi => .inr hi, rfl, rfl⟩
    · exact ⟨fun i hi => List.mem_cons.mp hi, rfl, rfl⟩
  obtain ⟨hindex, hheld, hhead⟩ := hinsert
  cases hh : f.head with
  | none =>
    rw [hh] at hhead
    simp only [add, hhead]
    exact ⟨hindex, hheld⟩
  | some head =>
    rw [hh] at hhead
    simp only [add, hhead]
    split
    · exact ⟨fun i hi => hindex i (List.mem_of_mem_filter hi), hheld⟩
    · exact ⟨hindex, hheld⟩

theorem add_maxSize (f : ForkDatabase Op) (item : ForkItem Op) :
    (f.add P item).maxSize = f.maxSize := by
  have hinsert : (f.insert P item).maxSize = f.maxSize := by
    unfold insert
    split <;> rfl
  unfold add
  dsimp only
  split
  · exact hinsert
  · split <;> exact hinsert

/-- Items within the window of the new item stay. -/
theorem mem_add {f : ForkDatabase Op} (item : ForkItem Op) {i : ForkItem Op} (hi : i ∈ f.index)
    (hwindow : item.num - f.maxSize ≤ i.num) : i ∈ (f.add P item).index := by
  have hinsert : i ∈ (f.insert P item).index ∧ (f.insert P item).maxSize = f.maxSize := by
    unfold insert
    split
    · exact ⟨hi, rfl⟩
    · exact ⟨List.mem_cons_of_mem _ hi, rfl⟩
  unfold add
  dsimp only
  split
  · exact hinsert.1
  · split
    · rw [List.mem_filter]
      refine ⟨hinsert.1, decide_eq_true ?_⟩
      rw [hinsert.2]
      exact hwindow
    · exact hinsert.1

theorem pushBlock_eq_ok {b : SignedBlock Op} (h : f.pushBlock P b = .ok f') :
    ∃ item, f.link P b = .ok item ∧ f' = f.add P item := by
  unfold pushBlock at h
  cases hlink : f.link P b with
  | error e =>
    rw [hlink] at h
    cases h
  | ok item =>
    rw [hlink] at h
    exact ⟨item, rfl, (Except.ok.inj h).symm⟩

theorem Linked.pushBlock (h : f.Linked P) {b : SignedBlock Op} (hpush : f.pushBlock P b = .ok f') :
    f'.Linked P := by
  obtain ⟨item, hlink, rfl⟩ := pushBlock_eq_ok hpush
  have hitem := h.link hlink
  obtain ⟨hindex, hheld⟩ := add_subset (P := P) f item
  refine h.of_subset fun i hi => ?_
  rw [hheld, add_head, List.mem_append, List.mem_append] at hi
  rcases hi with (hi | hi) | hi
  · rcases hindex i hi with rfl | hi
    · exact .inr hitem
    · exact .inl (by simp [hi])
  · split at hi
    · obtain rfl : i = item := by simpa using hi
      exact .inr hitem
    · next head hh =>
      split at hi
      · obtain rfl : i = item := by simpa using hi
        exact .inr hitem
      · obtain rfl : i = head := by simpa using hi
        exact .inl (by simp [hh])
  · exact .inl (by simp [hi])

/-- `pop_block` moves the head to the item of its predecessor. -/
theorem popBlock_eq_ok (h : f.popBlock = .ok f') : ∃ hd b p, f.head = some (.linked hd b p) ∧
    f.alive p.handle = true ∧ f' = { f with head := some p } := by
  unfold popBlock at h
  cases hh : f.head with
  | none =>
    rw [hh] at h
    cases h
  | some i =>
    rw [hh, Option.bind_some] at h
    cases i with
    | unlinked hd b => cases h
    | linked hd b p =>
      unfold lock at h
      cases halive : f.alive p.handle with
      | false =>
        simp only [halive, Bool.false_eq_true, if_false] at h
        cases h
      | true =>
        simp only [halive, if_true] at h
        exact ⟨hd, b, p, rfl, halive, (Except.ok.inj h).symm⟩

theorem Linked.popBlock (h : f.Linked P) (hpop : f.popBlock = .ok f') : f'.Linked P := by
  obtain ⟨hd, b, p, hhead, -, rfl⟩ := popBlock_eq_ok hpop
  have hitem : (ForkItem.linked hd b p).WellLinked P := h _ (by simp [hhead])
  refine h.of_subset fun i hi => ?_
  simp only [Option.toList_some, List.mem_append, List.mem_singleton] at hi
  rcases hi with (hi | rfl) | hi
  · exact .inl (by simp [hi])
  · exact .inr hitem.2
  · exact .inl (by simp [hi])

theorem lock_eq_some {i q : ForkItem Op} (hi : i.WellLinked P) (h : f.lock i = some q) :
    q.id P = i.data.previous ∧ q.WellLinked P := by
  cases i with
  | unlinked hd b => cases h
  | linked hd b p =>
    simp only [lock, Option.ite_none_right_eq_some, Option.some.injEq] at h
    obtain ⟨-, rfl⟩ := h
    exact hi

/-! ### The two branches -/

theorem walkDown_path (f : ForkDatabase Op) (num : ℕ) : ∀ {i : ForkItem Op}
    {l : List (ForkItem Op)} {last : ForkItem Op}, i.WellLinked P →
    f.walkDown num i = .ok (l, last) →
    Path P (i.id P) l (last.id P) ∧ last.WellLinked P ∧ ∀ j ∈ l, j.WellLinked P
  | .unlinked hd b, l, last, hi, h => by
    unfold walkDown at h
    split at h
    · cases h
    · cases h
      exact ⟨rfl, hi, by simp⟩
  | .linked hd b p, l, last, hi, h => by
    unfold walkDown at h
    split at h
    · split at h
      · cases hrec : f.walkDown num p with
        | error e =>
          rw [hrec] at h
          cases h
        | ok r =>
          rw [hrec] at h
          cases h
          obtain ⟨hpath, hlast, hall⟩ := walkDown_path f num hi.2 hrec
          refine ⟨⟨rfl, ?_⟩, hlast, ?_⟩
          · change Path P b.previous r.1 _
            rw [← hi.1]
            exact hpath
          · intro j hj
            rcases List.mem_cons.mp hj with rfl | hj
            · exact hi
            · exact hall j hj
      · cases h
    · cases h
      exact ⟨rfl, hi, by simp⟩

/-- The walk down both branches to a common predecessor. -/
theorem walkBoth_path (f : ForkDatabase Op) : ∀ {i j : ForkItem Op} {l l' : List (ForkItem Op)},
    i.WellLinked P → j.WellLinked P → f.walkBoth i j = .ok (l, l') →
    l ≠ [] ∧ l' ≠ [] ∧ (∀ k ∈ l ++ l', k.WellLinked P) ∧
      ∃ last, Path P (i.id P) l last ∧ Path P (j.id P) l' last
  | .unlinked hd b, j, l, l', hi, hj, h => by
    unfold walkBoth at h
    split at h
    · next heq =>
      cases h
      exact ⟨by simp, by simp, by simp [hi, hj], b.previous, ⟨rfl, rfl⟩, rfl, heq.symm⟩
    · cases h
  | .linked hd b p, j, l, l', hi, hj, h => by
    unfold walkBoth at h
    split at h
    · next heq =>
      cases h
      exact ⟨by simp, by simp, by simp [hi, hj], b.previous, ⟨rfl, rfl⟩, rfl, heq.symm⟩
    · split at h
      · split at h
        · cases h
        · next q hq =>
          have hlock := lock_eq_some hj hq
          cases hrec : f.walkBoth p q with
          | error e =>
            rw [hrec] at h
            cases h
          | ok r =>
            rw [hrec] at h
            cases h
            obtain ⟨-, -, hall, last, hpath, hpath'⟩ := walkBoth_path f hi.2 hlock.2 hrec
            refine ⟨by simp, by simp, ?_, last, ⟨rfl, ?_⟩, rfl, ?_⟩
            · intro k hk
              simp only [List.mem_append, List.mem_cons] at hk hall
              rcases hk with (rfl | hk) | rfl | hk
              · exact hi
              · exact hall k (.inl hk)
              · exact hj
              · exact hall k (.inr hk)
            · change Path P b.previous r.1 last
              rw [← hi.1]
              exact hpath
            · rw [← hlock.1]
              exact hpath'
      · cases h

/-- **The branches of `fetch_branch_from` are paths to a common block.** -/
theorem fetchBranchFrom_path (hf : f.Linked P) {first second : BlockId}
    {l l' : List (ForkItem Op)} (h : f.fetchBranchFrom P first second = .ok (l, l')) :
    l ≠ [] ∧ l' ≠ [] ∧ (∀ k ∈ l ++ l', k.WellLinked P) ∧
      ∃ last, Path P first l last ∧ Path P second l' last := by
  unfold fetchBranchFrom at h
  split at h
  · next i j hi hj =>
    obtain ⟨hilinked, hiid⟩ := hf.find hi
    obtain ⟨hjlinked, hjid⟩ := hf.find hj
    cases h₁ : f.walkDown j.num i with
    | error e =>
      simp only [h₁] at h
      cases h
    | ok r =>
      cases h₂ : f.walkDown r.2.num j with
      | error e =>
        simp only [h₁, bind, Except.bind, h₂] at h
        cases h
      | ok r' =>
        cases h₃ : f.walkBoth r.2 r'.2 with
        | error e =>
          simp only [h₁, bind, Except.bind, h₂, h₃] at h
          cases h
        | ok r'' =>
          simp only [h₁, bind, Except.bind, h₂, h₃] at h
          cases h
          obtain ⟨hp₁, hl₁, hall₁⟩ := walkDown_path f _ hilinked h₁
          obtain ⟨hp₂, hl₂, hall₂⟩ := walkDown_path f _ hjlinked h₂
          obtain ⟨hne, hne', hall₃, last, hp₃, hp₃'⟩ := walkBoth_path f hl₁ hl₂ h₃
          refine ⟨by simp [hne], by simp [hne'], ?_, last, ?_, ?_⟩
          · intro k hk
            simp only [List.mem_append] at hk hall₃
            rcases hk with (hk | hk) | hk | hk
            · exact hall₁ k hk
            · exact hall₃ k (.inl hk)
            · exact hall₂ k hk
            · exact hall₃ k (.inr hk)
          · rw [← hiid]
            exact hp₁.append hp₃
          · rw [← hjid]
            exact hp₂.append hp₃'
  · cases h

end ForkDatabase

end FinChain.Chain
