import FinChain.Plugins.AccountHistoryList

/-!
# The order of the operations in a history

Operations get their ids one after the other, and an operation is noted before the next one is created. So in the
history of an account a higher number is a later operation, and the entry with the id zero, which is also what stands for no
entry, is the first of its account (`HistoryRun.ordered`).
-/

namespace FinChain.Plugins

open Exec

variable {H : Type} {p : AccountHistoryPlugin H} {s s' : HistoryDatabase H}

/-- **The entries are in the order of their operations.** -/
structure HistoryDatabase.Ordered (s : HistoryDatabase H) : Prop where
  below : ∀ id e, s.histories.lookup id = some e → e.operationId < s.operations.next
  numbers : ∀ id e, s.histories.lookup id = some e → e.sequence ≤ (s.statistics e.account).totalOps
  increasing : ∀ id e id' e', s.histories.lookup id = some e → s.histories.lookup id' = some e' →
    e.account = e'.account → e.sequence < e'.sequence → e.operationId < e'.operationId
  first : ∀ e, s.histories.lookup 0 = some e → e.sequence = 1
  unused : s.histories.next = 0 → ∀ a, (s.statistics a).totalOps = 0

open HistoryDatabase

/-- Entries may go, and their links may change. -/
theorem HistoryDatabase.Ordered.of_entries (h : s.Ordered)
    (hentries : ∀ id e, s'.histories.lookup id = some e → ∃ e₀, s.histories.lookup id = some e₀ ∧
      e.account = e₀.account ∧ e.operationId = e₀.operationId ∧ e.sequence = e₀.sequence)
    (hstats : ∀ a, (s'.statistics a).totalOps = (s.statistics a).totalOps)
    (hops : s.operations.next ≤ s'.operations.next) (hnext : s'.histories.next = s.histories.next) :
    s'.Ordered where
  below id e he := by
    obtain ⟨e₀, he₀, -, hop, -⟩ := hentries id e he
    rw [hop]
    exact (h.below id e₀ he₀).trans_le hops
  numbers id e he := by
    obtain ⟨e₀, he₀, hacc, -, hseq⟩ := hentries id e he
    rw [hseq, hacc, hstats]
    exact h.numbers id e₀ he₀
  increasing id e id' e' he he' hacc hlt := by
    obtain ⟨e₀, he₀, hacc₀, hop, hseq⟩ := hentries id e he
    obtain ⟨e₁, he₁, hacc₁, hop', hseq'⟩ := hentries id' e' he'
    rw [hop, hop']
    exact h.increasing id e₀ id' e₁ he₀ he₁ (by rw [← hacc₀, ← hacc₁, hacc]) (by rw [← hseq, ← hseq']; exact hlt)
  first e he := by
    obtain ⟨e₀, he₀, -, -, hseq⟩ := hentries 0 e he
    rw [hseq]
    exact h.first e₀ he₀
  unused hzero a := by
    rw [hstats]
    exact h.unused (hnext ▸ hzero) a

theorem HistoryDatabase.Ordered.operations (h : s.Ordered) {x : Index H} (hx : s.operations.next ≤ x.next) :
    { s with operations := x }.Ordered :=
  h.of_entries (fun _ e he => ⟨e, he, rfl, rfl, rfl⟩) (fun _ => rfl) hx rfl

theorem HistoryDatabase.Ordered.dropEntry (h : s.Ordered) (a id : ℕ)
    (rest : List (ℕ × AccountTransactionHistory)) : (s.dropEntry a id rest).Ordered := by
  have herase : ∀ i e, (s.histories.erase id).lookup i = some e → s.histories.lookup i = some e := by
    intro i e he
    rw [Index.lookup_erase] at he
    split at he
    · cases he
    · exact he
  have hstats : ∀ b, ((s.setStatistics a { s.statistics a with
      removedOps := (s.statistics a).removedOps + 1 }).statistics b).totalOps = (s.statistics b).totalOps := by
    intro b
    rw [statistics_setStatistics]
    split
    · next hb => rw [hb]
    · rfl
  unfold HistoryDatabase.dropEntry
  cases rest with
  | nil => exact h.of_entries (fun i e he => ⟨e, herase i e he, rfl, rfl, rfl⟩) hstats le_rfl rfl
  | cons f rest =>
    dsimp only
    split
    · refine h.of_entries (fun i e he => ?_) hstats le_rfl rfl
      change ((s.histories.erase id).modify f.1 fun e => { e with next := 0 }).lookup i = some e at he
      rw [Index.lookup_modify] at he
      split at he
      · next hi =>
        rw [← hi] at he
        obtain ⟨e₀, he₀, rfl⟩ := Option.map_eq_some_iff.mp he
        exact ⟨e₀, herase i e₀ he₀, rfl, rfl, rfl⟩
      · exact ⟨e, herase i e he, rfl, rfl, rfl⟩
    · exact h.of_entries (fun i e he => ⟨e, herase i e he, rfl, rfl, rfl⟩) hstats le_rfl rfl

/-- **The newest operation** is noted with the next number, if it has not been noted for the account. -/
theorem HistoryDatabase.Ordered.addEntry (h : s.Ordered) {a opId : ℕ} (hop : opId + 1 = s.operations.next)
    (hclash : s.clashes a opId = false) : (s.addEntry a opId).Ordered := by
  have hnewTo : ∀ id e, s.histories.lookup id = some e → e.account = a → e.operationId < opId := by
    intro id e he hacc
    have hbelow := h.below id e he
    have hne : e.operationId ≠ opId := by
      intro heq
      unfold clashes at hclash
      rw [List.any_eq_false] at hclash
      exact hclash (id, e) (Index.mem_entries_of_lookup he) (decide_eq_true ⟨hacc, .inr heq⟩)
    omega
  have hsplit : ∀ id e, (s.addEntry a opId).histories.lookup id = some e →
      s.histories.lookup id = some e ∨
      id = s.histories.next ∧ e.account = a ∧ e.operationId = opId ∧ e.sequence = (s.statistics a).totalOps + 1 := by
    intro id e he
    rw [lookup_addEntry] at he
    split at he
    · next hid =>
      obtain rfl := Option.some.inj he
      exact .inr ⟨hid, rfl, rfl, rfl⟩
    · exact .inl he
  have htotal : ∀ b, (s.statistics b).totalOps ≤ ((s.addEntry a opId).statistics b).totalOps := by
    intro b
    rw [statistics_addEntry]
    split
    · next hb =>
      rw [hb]
      exact Nat.le_succ _
    · exact le_rfl
  constructor
  · intro id e he
    rcases hsplit id e he with he | ⟨-, -, hop', -⟩
    · exact h.below id e he
    · rw [hop', show (s.addEntry a opId).operations = s.operations from rfl, ← hop]
      exact Nat.lt_succ_self _
  · intro id e he
    rcases hsplit id e he with he | ⟨-, hacc, -, hseq⟩
    · exact (h.numbers id e he).trans (htotal _)
    · rw [hseq, hacc, statistics_addEntry, if_pos rfl]
  · intro id e id' e' he he' hacc hlt
    rcases hsplit id e he with he | ⟨-, hacc₀, -, hseq⟩
    · rcases hsplit id' e' he' with he' | ⟨-, hacc', hop', -⟩
      · exact h.increasing id e id' e' he he' hacc hlt
      · rw [hop']
        exact hnewTo id e he (hacc.trans hacc')
    · -- nothing has a higher number than the new entry
      rcases hsplit id' e' he' with he' | ⟨-, -, -, hseq'⟩
      · have hle := h.numbers id' e' he'
        rw [← hacc, hacc₀] at hle
        omega
      · omega
  · intro e he
    rcases hsplit 0 e he with he | ⟨hzero, -, -, hseq⟩
    · exact h.first e he
    · rw [hseq, h.unused hzero.symm a]
  · intro hzero
    exact absurd hzero (Nat.succ_ne_zero _)

/-! ### Programs -/

/-- What a part of the loop does while the newest operation is being noted. -/
def KeepsOrder (s s' : HistoryDatabase H) : Prop := s'.Ordered ∧ s'.operations.next = s.operations.next

theorem removeOperation_order {opId : ℕ} (h : s.Ordered) (hrun : removeOperation p opId s = .ok () s') :
    KeepsOrder s s' := by
  unfold removeOperation at hrun
  rw [get_bind] at hrun
  split at hrun
  · obtain ⟨-, hrun⟩ := assert_bind_eq_ok.mp hrun
    cases hrun
    exact ⟨h.operations le_rfl, rfl⟩
  · cases hrun
    exact ⟨h, rfl⟩

theorem removeEarliest_order {a athId : ℕ} (h : s.Ordered) (hrun : removeEarliest p a athId s = .ok () s') :
    KeepsOrder s s' := by
  unfold removeEarliest at hrun
  rw [get_bind] at hrun
  cases hbound : lowerBound s.histories a with
  | nil =>
    rw [hbound] at hrun
    cases hrun
    exact ⟨h, rfl⟩
  | cons e rest =>
    rw [hbound] at hrun
    change (if _ then _ else _ : HistoryM H Unit) s = _ at hrun
    split at hrun
    · rw [update_bind] at hrun
      obtain ⟨hordered, hnext⟩ := removeOperation_order (h.dropEntry a e.1 rest) hrun
      refine ⟨hordered, hnext.trans ?_⟩
      unfold HistoryDatabase.dropEntry
      cases rest with
      | nil => rfl
      | cons f rest =>
        dsimp only
        split <;> rfl
    · cases hrun
      exact ⟨h, rfl⟩

theorem addAccountHistory_order {a opId : ℕ} (h : s.Ordered) (hop : opId + 1 = s.operations.next)
    (hrun : addAccountHistory p a opId s = .ok () s') : KeepsOrder s s' := by
  unfold addAccountHistory at hrun
  rw [get_bind] at hrun
  obtain ⟨-, hrun⟩ := assert_bind_eq_ok.mp hrun
  obtain ⟨hclash, hrun⟩ := assert_bind_eq_ok.mp hrun
  rw [update_bind] at hrun
  have hadded := h.addEntry hop hclash
  split at hrun
  · cases hrun
    exact ⟨hadded, rfl⟩
  · rw [get_bind] at hrun
    split at hrun
    · obtain ⟨hordered, hnext⟩ := removeEarliest_order hadded hrun
      exact ⟨hordered, hnext⟩
    · cases hrun
      exact ⟨hadded, rfl⟩

/-- An operation is created as the newest one, or it is already. -/
theorem createOho_order {o : H} {oho : Option ℕ} {id : ℕ} (h : s.Ordered)
    (hoho : ∀ id, oho = some id → id + 1 = s.operations.next) (hrun : createOho o oho s = .ok id s') :
    s'.Ordered ∧ id + 1 = s'.operations.next := by
  cases oho with
  | some id' =>
    cases hrun
    exact ⟨h, hoho id rfl⟩
  | none =>
    cases hrun
    exact ⟨h.operations (Nat.le_succ _), rfl⟩

theorem forM_addAccountHistory_order {opId : ℕ} {accounts : List ℕ} (h : s.Ordered)
    (hop : opId + 1 = s.operations.next)
    (hrun : (accounts.forM fun a => addAccountHistory p a opId) s = .ok () s') : KeepsOrder s s' := by
  induction accounts generalizing s with
  | nil =>
    cases hrun
    exact ⟨h, rfl⟩
  | cons a accounts ih =>
    obtain ⟨_, s₁, hfirst, hrest⟩ := bind_eq_ok.mp hrun
    obtain ⟨hordered, hnext⟩ := addAccountHistory_order h hop hfirst
    obtain ⟨hordered', hnext'⟩ := ih hordered (hop.trans hnext.symm) hrest
    exact ⟨hordered', hnext'.trans hnext⟩

theorem addForAll_order {o : H} {oho oho' : Option ℕ} (h : s.Ordered)
    (hoho : ∀ id, oho = some id → id + 1 = s.operations.next) (hrun : addForAll p o oho s = .ok oho' s') :
    s'.Ordered := by
  unfold addForAll at hrun
  split at hrun
  · cases hrun
    exact h
  · obtain ⟨id, s₁, hcreate, hrun⟩ := bind_eq_ok.mp hrun
    obtain ⟨hordered, hop⟩ := createOho_order h hoho hcreate
    split at hrun
    · obtain ⟨_, s₂, hloop, hrun⟩ := bind_eq_ok.mp hrun
      cases hrun
      exact (forM_addAccountHistory_order hordered hop hloop).1
    · cases hrun
      exact hordered

theorem addForTracked_order {o : H} {accounts : List ℕ} {oho oho' : Option ℕ} (h : s.Ordered)
    (hoho : ∀ id, oho = some id → id + 1 = s.operations.next)
    (hrun : addForTracked p o accounts oho s = .ok oho' s') : s'.Ordered := by
  induction accounts generalizing s oho with
  | nil =>
    cases hrun
    exact h
  | cons a accounts ih =>
    unfold addForTracked at hrun
    split at hrun
    · obtain ⟨id, s₁, hcreate, hrun⟩ := bind_eq_ok.mp hrun
      obtain ⟨hordered, hop⟩ := createOho_order h hoho hcreate
      obtain ⟨_, s₂, hadd, hrun⟩ := bind_eq_ok.mp hrun
      obtain ⟨hordered₂, hnext⟩ := addAccountHistory_order hordered hop hadd
      refine ih hordered₂ (fun id' hid => ?_) hrun
      cases hid
      exact hop.trans hnext.symm
    · exact ih h hoho hrun

/-- **One operation** keeps the order. -/
theorem updateAccountHistory_order {o : Option H} (h : s.Ordered)
    (hrun : updateAccountHistory p o s = .ok () s') : s'.Ordered := by
  cases o with
  | none =>
    cases hrun
    exact h.operations (Nat.le_succ _)
  | some o =>
    unfold updateAccountHistory at hrun
    dsimp only at hrun
    split at hrun
    · cases hrun
      exact h.operations (Nat.le_succ _)
    · obtain ⟨oho, s₁, hfirst, hrun⟩ := bind_eq_ok.mp hrun
      obtain ⟨oho', s₂, hentries, hrun⟩ := bind_eq_ok.mp hrun
      have hordered₁ : s₁.Ordered ∧ ∀ id, oho = some id → id + 1 = s₁.operations.next := by
        unfold firstOho at hfirst
        split at hfirst
        · cases hfirst
          exact ⟨h, fun _ hid => (nomatch hid)⟩
        · obtain ⟨id, s₃, hcreate, hfirst⟩ := bind_eq_ok.mp hfirst
          cases hfirst
          obtain ⟨hordered, hop⟩ := createOho_order h (by intro id' hid; cases hid) hcreate
          refine ⟨hordered, fun id' hid => ?_⟩
          cases hid
          exact hop
      have hordered₂ : s₂.Ordered := by
        unfold addEntries at hentries
        split at hentries
        · exact addForAll_order hordered₁.1 hordered₁.2 hentries
        · split at hentries
          · exact addForTracked_order hordered₁.1 hordered₁.2 hentries
          · cases hentries
            exact hordered₁.1
      split at hrun
      · cases hrun
        exact hordered₂.operations (Nat.le_succ _)
      · cases hrun
        exact hordered₂

/-- What every operation keeps, a block keeps. -/
theorem updateAccountHistories_keeps {P : HistoryDatabase H → Prop}
    (hstep : ∀ {o s s'}, P s → updateAccountHistory p o s = .ok () s' → P s') {hist : List (Option H)} (h : P s)
    (hrun : updateAccountHistories p hist s = .ok () s') : P s' := by
  have hframe : Frame fun s s' : HistoryDatabase H => P s → P s' := ⟨fun _ h => h, fun h h' hs => h' (h hs)⟩
  exact hframe.keepsOk_forM (fun o s _ s' hok hs => hstep hs hok) hist s () s' hrun h

theorem HistoryRun.ordered (h : HistoryRun p s) : s.Ordered := by
  induction h with
  | empty accounts => exact ⟨nofun, nofun, nofun, nofun, fun _ _ => rfl⟩
  | createAccount a _ ih => exact ⟨ih.below, ih.numbers, ih.increasing, ih.first, ih.unused⟩
  | update hist _ hrun ih => exact updateAccountHistories_keeps updateAccountHistory_order ih hrun

/-! ### Without histories -/

/-- Nothing has been noted. -/
def HistoryDatabase.Untouched (s : HistoryDatabase H) : Prop :=
  (∀ id, s.histories.lookup id = none) ∧ ∀ a, s.statistics a = {}

theorem updateAccountHistory_untouched (hmax : p.maxOpsPerAccount = 0) {o : Option H} (h : s.Untouched)
    (hrun : updateAccountHistory p o s = .ok () s') : s'.Untouched := by
  have hframe : Frame fun s s' : HistoryDatabase H => s.Untouched → s'.Untouched :=
    ⟨fun _ h => h, fun h h' hs => h' (h hs)⟩
  have hnot : ¬ 0 < p.maxOpsPerAccount := by omega
  have hcreate : ∀ (o : H) (oho : Option ℕ), KeepsOk (fun s s' => s.Untouched → s'.Untouched) (createOho o oho) := by
    intro o oho
    cases oho with
    | some id => exact hframe.keepsOk_pure id
    | none => exact hframe.keepsOk_get_bind fun s => hframe.keepsOk_bind (keepsOk_update fun _ h => h) fun _ =>
        hframe.keepsOk_pure _
  have hfirst : ∀ o : H, KeepsOk (fun s s' => s.Untouched → s'.Untouched) (firstOho p o) := fun o =>
    keepsOk_ite (hframe.keepsOk_pure _) (hframe.keepsOk_bind (hcreate o none) fun _ => hframe.keepsOk_pure _)
  have hentries : ∀ (o : H) oho, KeepsOk (fun s s' => s.Untouched → s'.Untouched) (addEntries p o oho) := by
    intro o oho
    unfold addEntries addForAll
    rw [if_neg hnot]
    refine keepsOk_ite (keepsOk_ite (hframe.keepsOk_pure _) ?_) (hframe.keepsOk_pure _)
    refine hframe.keepsOk_bind (hcreate o oho) fun id => ?_
    rw [if_neg hnot]
    exact hframe.keepsOk_pure _
  have hnext : KeepsOk (fun s s' : HistoryDatabase H => s.Untouched → s'.Untouched) useNextId :=
    keepsOk_update fun _ h => h
  cases o with
  | none => exact hnext s () s' hrun h
  | some o =>
    have hall : KeepsOk (fun s s' => s.Untouched → s'.Untouched) (updateAccountHistory p (some o)) :=
      keepsOk_ite hnext (hframe.keepsOk_bind (hfirst o) fun oho => hframe.keepsOk_bind (hentries o oho) fun oho' =>
        keepsOk_ite hnext (hframe.keepsOk_pure _))
    exact hall s () s' hrun h

theorem HistoryRun.untouched (hmax : p.maxOpsPerAccount = 0) (h : HistoryRun p s) : s.Untouched := by
  induction h with
  | empty accounts => exact ⟨fun _ => rfl, fun _ => rfl⟩
  | createAccount a _ ih => exact ih
  | update hist _ hrun ih => exact updateAccountHistories_keeps (updateAccountHistory_untouched hmax) ih hrun

end FinChain.Plugins
