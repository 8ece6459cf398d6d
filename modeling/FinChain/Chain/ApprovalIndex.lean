import FinChain.Db.MemberMap
import FinChain.Chain.ProposalObject

/-!
# The proposals that an account has to do with

`required_approval_index` finds the proposals that an account is named in, among the approvals that are
required or those that are available. It is told when a proposal is created and when one is removed. Of a
modification it is told too, but its functions for that are empty, and of a proposal that `undo` puts back it
is not told at all.

So the index is exact as long as the accounts of a proposal stay the same (an approval by an account whose
approval is required does not change them), and a removed proposal is not put back.
-/

namespace FinChain.Chain

open MemberMap

variable {Key Op V : Type}

/-- The accounts among the approvals of a proposal, required and available, active and owner. -/
def ProposalObject.approvals (p : ProposalObject Key Op) : Finset ℕ :=
  p.requiredActiveApprovals ∪ p.requiredOwnerApprovals ∪ p.availableActiveApprovals ∪
    p.availableOwnerApprovals

namespace RequiredApprovalIndex

def objectInserted (n : ℕ) (p : ProposalObject Key Op) (t : MemberMap ℕ) : MemberMap ℕ :=
  let t := addAll p.requiredActiveApprovals n t
  let t := addAll p.requiredOwnerApprovals n t
  let t := addAll p.availableActiveApprovals n t
  addAll p.availableOwnerApprovals n t

/-- `required_approval_index::remove`. -/
def remove (t : MemberMap ℕ) (a : ℕ) (n : ℕ) : MemberMap ℕ :=
  match t.lookup a with
  | none => t
  | some s => if s.erase n = ∅ then t.erase a else t.insert a (s.erase n)

/-- The loop over a set of accounts. -/
def removeAll (accounts : Finset ℕ) (n : ℕ) (t : MemberMap ℕ) : MemberMap ℕ :=
  (accounts.sort (· ≤ ·)).foldl (fun t a => remove t a n) t

def objectRemoved (n : ℕ) (p : ProposalObject Key Op) (t : MemberMap ℕ) : MemberMap ℕ :=
  let t := removeAll p.requiredActiveApprovals n t
  let t := removeAll p.requiredOwnerApprovals n t
  let t := removeAll p.availableActiveApprovals n t
  removeAll p.availableOwnerApprovals n t

end RequiredApprovalIndex

/-- The index of proposals. -/
def proposalKey : IndexKey := ⟨1, 10⟩

/-- `required_approval_index` on the proposals of a database, to which its objects are cast. -/
def requiredApprovalIndex (cast : V → ProposalObject Key Op) : SecondaryIndex V (MemberMap ℕ) where
  key := proposalKey
  objectInserted n v := RequiredApprovalIndex.objectInserted n (cast v)
  objectRemoved n v := RequiredApprovalIndex.objectRemoved n (cast v)
  aboutToModify _ _ t := t
  objectModified _ _ t := t

/-- Every account is mapped to the proposals that name it, and has no entry if there are none. -/
structure RequiredApprovalIndex.Exact (cast : V → ProposalObject Key Op) (proposals : ℕ → Option V)
    (t : MemberMap ℕ) : Prop where
  ids : MemberMap.Exact (fun v => (cast v).approvals) proposals t
  noEmpty : ∀ a, t.lookup a ≠ some ∅

namespace RequiredApprovalIndex

/-! ### The loops -/

theorem mem_ids_remove (t : MemberMap ℕ) (a n b m : ℕ) :
    m ∈ ids (remove t a n) b ↔ m ∈ ids t b ∧ ¬ (m = n ∧ b = a) := by
  unfold remove
  cases ha : t.lookup a with
  | none =>
    dsimp only
    refine (and_iff_left_of_imp ?_).symm
    rintro hm ⟨-, rfl⟩
    rw [ids, ha] at hm
    exact Finset.notMem_empty m hm
  | some s =>
    have hs : ids t a = s := by rw [ids, ha, Option.getD_some]
    have hdrop : ids (if s.erase n = ∅ then t.erase a else t.insert a (s.erase n)) b =
        ids (drop t a n) b := by
      unfold drop
      rw [ids_insert, hs]
      split
      · next hempty =>
        unfold ids
        by_cases hb : b = a
        · rw [if_pos hb, hempty, hb, AList.lookup_erase, Option.getD_none]
        · rw [if_neg hb, AList.lookup_erase_ne hb]
      · rw [ids_insert]
    dsimp only
    rw [hdrop, mem_ids_drop]

theorem mem_ids_removeAll (accounts : Finset ℕ) (n : ℕ) (t : MemberMap ℕ) (b m : ℕ) :
    m ∈ ids (removeAll accounts n t) b ↔ m ∈ ids t b ∧ ¬ (m = n ∧ b ∈ accounts) := by
  unfold removeAll
  rw [mem_ids_foldl_drop (fun t a b m => mem_ids_remove t a n b m), Finset.mem_sort]

theorem mem_ids_objectInserted (n : ℕ) (p : ProposalObject Key Op) (t : MemberMap ℕ) (a m : ℕ) :
    m ∈ ids (objectInserted n p t) a ↔ m ∈ ids t a ∨ (m = n ∧ a ∈ p.approvals) := by
  unfold objectInserted ProposalObject.approvals
  simp only [mem_ids_addAll, Finset.mem_union]
  tauto

theorem mem_ids_objectRemoved (n : ℕ) (p : ProposalObject Key Op) (t : MemberMap ℕ) (a m : ℕ) :
    m ∈ ids (objectRemoved n p t) a ↔ m ∈ ids t a ∧ ¬ (m = n ∧ a ∈ p.approvals) := by
  unfold objectRemoved ProposalObject.approvals
  simp only [mem_ids_removeAll, Finset.mem_union]
  tauto

/-! ### No empty entries -/

/-- No entry is empty. -/
def NoEmpty (t : MemberMap ℕ) : Prop := ∀ a, t.lookup a ≠ some ∅

theorem noEmpty_empty : NoEmpty ∅ := by
  intro a
  rw [AList.lookup_empty]
  exact nofun

theorem NoEmpty.insert {t : MemberMap ℕ} (h : NoEmpty t) {a : ℕ} {s : Finset ℕ} (hs : s ≠ ∅) :
    NoEmpty (t.insert a s) := by
  intro b
  by_cases hb : b = a
  · rw [hb, AList.lookup_insert]
    exact fun heq => hs (Option.some.inj heq)
  · rw [AList.lookup_insert_ne hb]
    exact h b

theorem NoEmpty.remove {t : MemberMap ℕ} (h : NoEmpty t) (a n : ℕ) : NoEmpty (remove t a n) := by
  unfold RequiredApprovalIndex.remove
  split
  · exact h
  · split
    · intro b
      by_cases hb : b = a
      · rw [hb, AList.lookup_erase]
        exact nofun
      · rw [AList.lookup_erase_ne hb]
        exact h b
    · next hne => exact h.insert hne

theorem NoEmpty.foldl {f : MemberMap ℕ → ℕ → MemberMap ℕ} (hf : ∀ t a, NoEmpty t → NoEmpty (f t a)) :
    ∀ (l : List ℕ) {t : MemberMap ℕ}, NoEmpty t → NoEmpty (l.foldl f t)
  | [], _, h => h
  | a :: l, t, h => NoEmpty.foldl hf l (hf t a h)

theorem NoEmpty.addAll {t : MemberMap ℕ} (h : NoEmpty t) (accounts : Finset ℕ) (n : ℕ) :
    NoEmpty (addAll accounts n t) :=
  NoEmpty.foldl (fun _ _ ht => ht.insert (Finset.insert_ne_empty _ _)) _ h

theorem NoEmpty.removeAll {t : MemberMap ℕ} (h : NoEmpty t) (accounts : Finset ℕ) (n : ℕ) :
    NoEmpty (removeAll accounts n t) :=
  NoEmpty.foldl (fun _ a ht => ht.remove a n) _ h

end RequiredApprovalIndex

open RequiredApprovalIndex

/-- The kind of modification of which the index need not be told. -/
def SameApprovals (cast : V → ProposalObject Key Op) (v v' : V) : Prop :=
  (cast v').approvals = (cast v).approvals

/-- The kind of proposal of which the index need not be told at all. -/
def NoApprovals (cast : V → ProposalObject Key Op) (v : V) : Prop :=
  (cast v).approvals = ∅

theorem requiredApprovalIndex_tracks (cast : V → ProposalObject Key Op) :
    (requiredApprovalIndex cast).Tracks (RequiredApprovalIndex.Exact cast) (SameApprovals cast)
      (NoApprovals cast) where
  inserted h hn := by
    refine ⟨h.ids.insert hn fun a m => mem_ids_objectInserted _ _ _ a m, ?_⟩
    have hempty : NoEmpty _ := h.noEmpty
    exact (((hempty.addAll _ _).addAll _ _).addAll _ _).addAll _ _
  removed h hn := by
    refine ⟨h.ids.remove hn fun a m => mem_ids_objectRemoved _ _ _ a m, ?_⟩
    have hempty : NoEmpty _ := h.noEmpty
    exact (((hempty.removeAll _ _).removeAll _ _).removeAll _ _).removeAll _ _
  modified h hn hsame := ⟨h.ids.keep hn hsame, h.noEmpty⟩
  putBack := by
    intro o s n v h hn hnone
    refine ⟨h.ids.insert hn fun a m => ?_, h.noEmpty⟩
    rw [hnone]
    simp

/-- **The proposals of an account are found exactly**, after every run in which no modification of a
proposal changes the accounts among its approvals and no proposal with approvals is put back by `undo`. -/
theorem required_approvals_exact (cast : V → ProposalObject Key Op) {maxSize : ℕ}
    {l : List (DbCall V)} {y : IndexedDatabase V (MemberMap ℕ)}
    (hrun : (IndexedDatabase.empty maxSize ∅).run (requiredApprovalIndex cast) l = .ok y)
    (hl : (IndexedDatabase.empty maxSize ∅).Along (requiredApprovalIndex cast) (fun x c =>
      x.Permits (requiredApprovalIndex cast) (SameApprovals cast) (NoApprovals cast) c) l) :
    RequiredApprovalIndex.Exact cast (fun n => y.db.store.objects ⟨proposalKey, n⟩) y.secondary := by
  have hempty : (requiredApprovalIndex cast).Holds (RequiredApprovalIndex.Exact cast)
      (IndexedDatabase.empty maxSize ∅).indexed :=
    ⟨exact_empty, noEmpty_empty⟩
  exact IndexedDatabase.run_holds (requiredApprovalIndex_tracks cast) hempty hl hrun

/-- A proposal that needs the approval of one account, for the examples. -/
private def smallProposal : ProposalObject ℕ ℕ where
  expirationTime := 1500000000
  proposedOps := []
  requiredActiveApprovals := {5}

/-- The account that is asked for its approval gives it. -/
private def requiredApproval : ProposalUpdate ℕ where
  feePayingAccount := 5
  proposal := 0
  activeApprovalsToAdd := {5}

/-- An account of which nothing was asked approves. -/
private def otherApproval : ProposalUpdate ℕ where
  feePayingAccount := 6
  proposal := 0
  activeApprovalsToAdd := {6}

theorem required_approvals_exact_one : ∃ y : IndexedDatabase (ProposalObject ℕ ℕ) (MemberMap ℕ),
    RequiredApprovalIndex.Exact id (fun n => y.db.store.objects ⟨proposalKey, n⟩) y.secondary := by
  obtain ⟨y, hrun, hl⟩ : ∃ y, (IndexedDatabase.empty 10 ∅).run (requiredApprovalIndex id)
        [.create proposalKey fun _ => smallProposal, .modify ⟨proposalKey, 0⟩ requiredApproval.modify] =
          .ok y ∧
      (IndexedDatabase.empty 10 ∅).Along (requiredApprovalIndex id) (fun x c =>
        x.Permits (requiredApprovalIndex id) (SameApprovals id) (NoApprovals id) c)
        [.create proposalKey fun _ => smallProposal,
          .modify ⟨proposalKey, 0⟩ requiredApproval.modify] := by
    refine ⟨_, rfl, .cons trivial rfl (.cons ?_ rfl trivial)⟩
    rintro - v hv
    cases hv
    have hsame : (requiredApproval.modify smallProposal).approvals = smallProposal.approvals := by decide
    exact hsame
  exact ⟨y, required_approvals_exact id hrun hl⟩

/-- After the other approval the proposal is not found under the account. -/
theorem not_required_approvals_exact :
    ¬ ∀ (l : List (DbCall (ProposalObject ℕ ℕ))) (y : IndexedDatabase (ProposalObject ℕ ℕ) (MemberMap ℕ)),
      (IndexedDatabase.empty 10 ∅).run (requiredApprovalIndex id) l = .ok y →
      RequiredApprovalIndex.Exact id (fun n => y.db.store.objects ⟨proposalKey, n⟩) y.secondary := by
  intro hall
  have hexact := hall [.create proposalKey fun _ => smallProposal,
    .modify ⟨proposalKey, 0⟩ otherApproval.modify] _ rfl
  have hmem := (hexact.ids 6 0).mpr ⟨_, rfl, by decide⟩
  revert hmem
  change 0 ∉ ids (objectInserted 0 smallProposal ∅) 6
  rw [mem_ids_objectInserted]
  decide

end FinChain.Chain
