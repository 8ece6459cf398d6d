import FinChain.Ledger.ConfidentialEffects

/-!
# What backs confidential balances

Whether `confidential_supply` is the sum of what the blinded balances hide. In every run each balance is
consumed at most once, and what is public and what is confidential stay within the maximum supply
together (`BlindInv`). So the sums that are compared are small on one side: that of the inputs, or the
amount that becomes confidential.

Values only come in by comparing sums modulo the order of the group. The comparison is exact when the
outputs hide small values, and the code nowhere makes sure of that. With more than one output it reads
what the range proofs claim; with one output of a blind transfer it checks nothing, though the fee can be
more than what the inputs hide. These two are all that can go wrong (`confidential_backed`).
-/

namespace FinChain.Ledger

open Exec Protocol

variable {Commitment RangeProof Key : Type}

/-- Confidential balances are backed. -/
structure Backed (E : CommitmentScheme Commitment RangeProof) (s : BlindBooks Commitment Key) : Prop where
  supply : ∀ a, s.confidentialSupply a = s.hidden E a
  inRange : ∀ id b, s.blinded.lookup id = some b → (E.value b.commitment : ℤ) ≤ maxShareSupply

/-- What holds of every run. -/
structure BlindInv (s : BlindBooks Commitment Key) : Prop extends ConsumedOnce s where
  nonneg : BalancesNonneg s.books.balances
  supply_nonneg : ∀ a, 0 ≤ s.confidentialSupply a
  within : ∀ a, held s.books.balances a + s.confidentialSupply a ≤ maxShareSupply
  unique : UniqueCommitments s

/-! ### One step -/

section Exchanged

variable {E : CommitmentScheme Commitment RangeProof} {s s' : BlindBooks Commitment Key} {assetId : ℕ}
  {delta : ℤ} {fee : Asset} {inputs outputs : List Commitment}

/-- What is public and what is confidential only decreases, by the fee. -/
theorem Exchanged.together (h : Exchanged E assetId delta fee inputs outputs s s') :
    held s'.books.balances + s'.confidentialSupply =
      held s.books.balances + s.confidentialSupply - fee.vec := by
  rw [h.balances, h.supply]
  abel

theorem Exchanged.inv (h : Exchanged E assetId delta fee inputs outputs s s') (hs : BlindInv s) :
    BlindInv s' := by
  refine ⟨h.consumedOnce hs.toConsumedOnce, h.nonneg hs.nonneg, fun a => ?_, fun a => ?_,
    h.unique hs.unique⟩
  · rw [h.supply, Pi.add_apply, Asset.vec_apply]
    by_cases ha : a = assetId
    · rw [if_pos ha, ha]
      exact h.supply_nonneg
    · rw [if_neg ha, add_zero]
      exact hs.supply_nonneg a
  · have htogether := congrFun h.together a
    have hfee := Asset.vec_nonneg h.fee_nonneg a
    have hwithin := hs.within a
    simp only [Pi.add_apply, Pi.sub_apply, Pi.zero_apply] at htogether hfee
    omega

/-- **When balances stay backed**: the confidential supply moves as the hidden values do, and no output
hides too much. -/
theorem Exchanged.backed_iff (h : Exchanged E assetId delta fee inputs outputs s s') (hs : Backed E s) :
    Backed E s' ↔ E.sum inputs + delta = E.sum outputs ∧
      ∀ c ∈ outputs, (E.value c : ℤ) ≤ maxShareSupply := by
  constructor
  · intro hs'
    refine ⟨?_, fun c hc => ?_⟩
    · have hsupply := hs'.supply assetId
      rw [h.supply, h.hidden] at hsupply
      simp only [Pi.add_apply, Pi.sub_apply, vec_self] at hsupply
      rw [hs.supply] at hsupply
      omega
    · obtain ⟨id, b, hb, rfl⟩ := h.live c hc
      exact hs'.inRange id b hb
  · rintro ⟨hsum, hrange⟩
    refine ⟨fun a => ?_, fun id b hb => ?_⟩
    · rw [h.supply, h.hidden]
      simp only [Pi.add_apply, Pi.sub_apply, Asset.vec_apply]
      rw [hs.supply]
      by_cases ha : a = assetId
      · rw [if_pos ha, if_pos ha, if_pos ha]
        omega
      · rw [if_neg ha, if_neg ha, if_neg ha]
        omega
    · rcases h.old id b hb with hb | hmem
      · exact hs.inRange id b hb
      · exact hrange _ hmem

/-- What is confidential is within the maximum supply, and so is what is consumed. -/
theorem Exchanged.inputs_le (h : Exchanged E assetId delta fee inputs outputs s s') (hs : Backed E s)
    (hinv : BlindInv s) : (E.sum inputs : ℤ) ≤ s.confidentialSupply assetId ∧
      s.confidentialSupply assetId ≤ maxShareSupply := by
  have hcovered := h.covered
  rw [← hs.supply] at hcovered
  have hheld : 0 ≤ held s.books.balances assetId := held_nonneg hinv.nonneg assetId
  have hwithin := hinv.within assetId
  exact ⟨hcovered, by omega⟩

/-- What becomes confidential was public. -/
theorem Exchanged.delta_le (h : Exchanged E assetId delta fee inputs outputs s s') (hinv : BlindInv s) :
    delta ≤ maxShareSupply := by
  have hheld : 0 ≤ held s'.books.balances assetId := held_nonneg (h.nonneg hinv.nonneg) assetId
  have hfee := Asset.vec_nonneg h.fee_nonneg assetId
  rw [h.balances] at hheld
  simp only [Pi.sub_apply, vec_self, Pi.zero_apply] at hheld hfee
  have hwithin := hinv.within assetId
  have hsupply := hinv.supply_nonneg assetId
  omega

end Exchanged

/-! ### What `validate` makes sure of -/

/-- **What the code relies on**, but does not check: of several outputs, none hides too much, and a
single output of a blind transfer is what the fee leaves of the inputs. -/
def BlindOperation.Honest (E : CommitmentScheme Commitment RangeProof) :
    BlindOperation Commitment RangeProof Key → Prop
  | transferToBlind op =>
    1 < op.outputs.length → ∀ out ∈ op.outputs, (E.value out.commitment : ℤ) ≤ maxShareSupply
  | blindTransfer op =>
    (op.outputs.length = 1 → op.fee.amount ≤ E.sum (op.inputs.map BlindInput.commitment)) ∧
      (1 < op.outputs.length → ∀ out ∈ op.outputs, (E.value out.commitment : ℤ) ≤ maxShareSupply)
  | transferFromBlind _ => True

section Validate

variable {E : CommitmentScheme Commitment RangeProof}

/-- When the outputs are what the fee leaves of something small. -/
theorem outputs_iff {left : List Commitment} {outputs : List (BlindOutput Commitment RangeProof Key)}
    {fee : ℤ} (hfit : outputs.length < 2 ^ 32)
    (h : E.verifySum left (outputs.map BlindOutput.commitment) fee = true)
    (hleft : (E.sum left : ℤ) ≤ maxShareSupply) (hnonneg : 0 ≤ fee) (hfee : fee ≤ maxShareSupply) :
    (E.sum left + -fee = E.sum (outputs.map BlindOutput.commitment) ∧
        ∀ c ∈ outputs.map BlindOutput.commitment, (E.value c : ℤ) ≤ maxShareSupply) ↔
      (outputs.length = 1 → fee ≤ E.sum left) ∧
        (1 < outputs.length → ∀ out ∈ outputs, (E.value out.commitment : ℤ) ≤ maxShareSupply) := by
  obtain ⟨n, rfl⟩ := Int.eq_ofNat_of_zero_le hnonneg
  have hmax : maxShareSupply = ((10 ^ 18 : ℕ) : ℤ) := by decide
  rw [hmax] at *
  have hsmall : ((outputs.map BlindOutput.commitment).length + 1) * 10 ^ 18 < 2 ^ 127 := by
    rw [List.length_map]
    omega
  have hiff := E.balanced_iff h (Int.ofNat_le.mp hleft) (Int.ofNat_le.mp hfee) hsmall
  rw [List.length_map, List.forall_mem_map] at hiff
  simp only [Nat.cast_le, List.forall_mem_map]
  rw [← hiff]
  refine and_congr_left fun _ => ?_
  omega

variable [LinearOrder Commitment]

theorem TransferToBlind.adds_up_iff {op : TransferToBlind Commitment RangeProof Key}
    (h : op.validate E = .ok ()) (hle : op.amount.amount ≤ maxShareSupply) :
    (E.sum [] + op.amount.amount = E.sum (op.outputs.map BlindOutput.commitment) ∧
        ∀ c ∈ op.outputs.map BlindOutput.commitment, (E.value c : ℤ) ≤ maxShareSupply) ↔
      (BlindOperation.transferToBlind op).Honest E := by
  unfold validate at h
  obtain ⟨-, h⟩ := check_bind_eq_ok.mp h
  obtain ⟨hpos, h⟩ := check_bind_eq_ok.mp h
  obtain ⟨-, h⟩ := check_bind_eq_ok.mp h
  obtain ⟨-, h⟩ := check_bind_eq_ok.mp h
  obtain ⟨hsum, -⟩ := check_bind_eq_ok.mp h
  have hmax : maxShareSupply = 10 ^ 18 := by decide
  -- the public amount is small, so its commitment hides it as it is
  obtain ⟨n, hn⟩ := Int.eq_ofNat_of_zero_le hpos.le
  have hpublic : (E.sum [E.blind op.blindingFactor (u64 op.amount.amount)] : ℤ) = op.amount.amount := by
    rw [CommitmentScheme.sum_singleton, u64_of_lt hn (by omega),
      CommitmentScheme.value_blind_of_lt _ (by omega), hn]
  have hiff := outputs_iff op.outputs_fit hsum (hpublic.trans_le hle) le_rfl (by decide)
  rw [hpublic] at hiff
  rw [CommitmentScheme.sum_nil, Nat.cast_zero, zero_add]
  rw [neg_zero, add_zero] at hiff
  rw [hiff]
  exact ⟨And.right, fun hseveral => ⟨fun _ => hpos.le, hseveral⟩⟩

theorem BlindTransfer.adds_up_iff {op : BlindTransfer Commitment RangeProof Key}
    (h : op.validate E = .ok ()) (hnonneg : 0 ≤ op.fee.amount) (hfee : op.fee.amount ≤ maxShareSupply)
    (hle : (E.sum (op.inputs.map BlindInput.commitment) : ℤ) ≤ maxShareSupply) :
    (E.sum (op.inputs.map BlindInput.commitment) + -op.fee.amount =
          E.sum (op.outputs.map BlindOutput.commitment) ∧
        ∀ c ∈ op.outputs.map BlindOutput.commitment, (E.value c : ℤ) ≤ maxShareSupply) ↔
      (BlindOperation.blindTransfer op).Honest E := by
  unfold validate at h
  obtain ⟨-, h⟩ := check_bind_eq_ok.mp h
  obtain ⟨-, h⟩ := check_bind_eq_ok.mp h
  obtain ⟨-, h⟩ := check_bind_eq_ok.mp h
  obtain ⟨hsum, -⟩ := check_bind_eq_ok.mp h
  exact outputs_iff op.outputs_fit hsum hle hnonneg hfee

theorem TransferFromBlind.assetId_eq {op : TransferFromBlind Commitment Key}
    (h : op.validate E = .ok ()) : op.amount.assetId = op.fee.assetId := by
  unfold validate at h
  obtain ⟨-, h⟩ := check_bind_eq_ok.mp h
  obtain ⟨-, h⟩ := check_bind_eq_ok.mp h
  obtain ⟨-, h⟩ := check_bind_eq_ok.mp h
  exact (check_bind_eq_ok.mp h).1

/-- With a public amount on the right nothing is left open. -/
theorem TransferFromBlind.adds_up {op : TransferFromBlind Commitment Key} (h : op.validate E = .ok ())
    (hamount : op.amount.amount + op.fee.amount ≤ maxShareSupply)
    (hle : (E.sum (op.inputs.map BlindInput.commitment) : ℤ) ≤ maxShareSupply) :
    E.sum (op.inputs.map BlindInput.commitment) + -(op.amount.amount + op.fee.amount) = 0 := by
  unfold validate at h
  obtain ⟨hpos, h⟩ := check_bind_eq_ok.mp h
  obtain ⟨hfee, h⟩ := check_bind_eq_ok.mp h
  obtain ⟨-, h⟩ := check_bind_eq_ok.mp h
  obtain ⟨-, h⟩ := check_bind_eq_ok.mp h
  obtain ⟨-, h⟩ := check_bind_eq_ok.mp h
  have hsum := check_eq_ok.mp h
  have hmax : maxShareSupply = 10 ^ 18 := by decide
  obtain ⟨n, hn⟩ := Int.eq_ofNat_of_zero_le (show 0 ≤ op.fee.amount + op.amount.amount by omega)
  have hpublic : E.sum [E.blind op.blindingFactor (u64 (op.fee.amount + op.amount.amount))] = n := by
    rw [CommitmentScheme.sum_singleton, u64_of_lt hn (by omega),
      CommitmentScheme.value_blind_of_lt _ (by omega)]
  have heq : n + 0 = E.sum (op.inputs.map BlindInput.commitment) := by
    rw [← hpublic]
    exact CommitmentScheme.eq_of_verifySum hsum (by omega) (by omega)
  omega

end Validate

/-! ### Runs -/

section Beside

variable {E : CommitmentScheme Commitment RangeProof} {s s' : BlindBooks Commitment Key}

/-- Other operations leave the blinded balances alone, and create no more than the maximum supply. -/
structure BesideBlinded (s s' : BlindBooks Commitment Key) : Prop where
  supply : s'.confidentialSupply = s.confidentialSupply
  blinded : s'.blinded = s.blinded
  consumed : s'.consumed = s.consumed
  nonneg : BalancesNonneg s'.books.balances
  within : ∀ a, held s'.books.balances a + s'.confidentialSupply a ≤ maxShareSupply

/-- Nothing is confidential yet. -/
structure Unblinded (s : BlindBooks Commitment Key) : Prop where
  supply : s.confidentialSupply = 0
  blinded : s.blinded = .empty
  consumed : s.consumed = []
  nonneg : BalancesNonneg s.books.balances
  within : ∀ a, held s.books.balances a ≤ maxShareSupply

theorem Unblinded.inv (h : Unblinded s) : BlindInv s := by
  have hnone (id : ℕ) : s.blinded.lookup id = none := by
    rw [h.blinded]
    rfl
  refine ⟨⟨?_, ?_⟩, h.nonneg, ?_, ?_, ?_⟩
  · rw [h.consumed]
    exact List.nodup_nil
  · rw [h.consumed]
    exact fun id hid => absurd hid List.not_mem_nil
  · rw [h.supply]
    exact fun a => le_rfl
  · rw [h.supply]
    intro a
    rw [Pi.zero_apply, add_zero]
    exact h.within a
  · intro id id' b b' hb
    rw [hnone] at hb
    cases hb

theorem Unblinded.backed (h : Unblinded s) : Backed E s := by
  refine ⟨fun a => ?_, fun id b hb => ?_⟩
  · unfold BlindBooks.hidden
    rw [h.supply, h.blinded]
    rfl
  · rw [h.blinded] at hb
    cases hb

theorem BesideBlinded.inv (h : BesideBlinded s s') (hs : BlindInv s) : BlindInv s' := by
  refine ⟨hs.toConsumedOnce.congr h.blinded h.consumed, h.nonneg, ?_, h.within, ?_⟩
  · rw [h.supply]
    exact hs.supply_nonneg
  · unfold UniqueCommitments
    rw [h.blinded]
    exact hs.unique

theorem BesideBlinded.backed (h : BesideBlinded s s') (hs : Backed E s) : Backed E s' := by
  refine ⟨fun a => ?_, ?_⟩
  · unfold BlindBooks.hidden
    rw [h.supply, h.blinded]
    exact hs.supply a
  · rw [h.blinded]
    exact hs.inRange

end Beside

section Runs

variable [LinearOrder Commitment] [DecidableEq Key] {E : CommitmentScheme Commitment RangeProof}
  {S : Settings} {s₀ s s' : BlindBooks Commitment Key}

/-- An operation is accepted. -/
structure BlindOperation.Accepted (E : CommitmentScheme Commitment RangeProof) (S : Settings)
    (op : BlindOperation Commitment RangeProof Key) (s s' : BlindBooks Commitment Key) : Prop where
  validate : op.validate E = .ok ()
  run : ∃ skip, op.run S skip s = .ok () s'

/-- Runs whose confidential operations are all of one kind. -/
inductive BlindRun (E : CommitmentScheme Commitment RangeProof) (S : Settings)
    (kind : BlindOperation Commitment RangeProof Key → Prop) (s₀ : BlindBooks Commitment Key) :
    BlindBooks Commitment Key → Prop
  | start : BlindRun E S kind s₀ s₀
  | operation {s s' : BlindBooks Commitment Key} {op : BlindOperation Commitment RangeProof Key}
      (hrun : BlindRun E S kind s₀ s) (hkind : kind op) (hstep : op.Accepted E S s s') :
      BlindRun E S kind s₀ s'
  | beside {s s' : BlindBooks Commitment Key} (hrun : BlindRun E S kind s₀ s)
      (hstep : BesideBlinded s s') : BlindRun E S kind s₀ s'

/-- **One accepted operation**: an exchange, which adds up exactly if the operation is honest. -/
theorem BlindOperation.Accepted.exchanged {op : BlindOperation Commitment RangeProof Key}
    (h : op.Accepted E S s s') (hinv : BlindInv s) : ∃ assetId delta fee inputs outputs,
      Exchanged E assetId delta fee inputs outputs s s' ∧
        (Backed E s → ((E.sum inputs + delta = E.sum outputs ∧
          ∀ c ∈ outputs, (E.value c : ℤ) ≤ maxShareSupply) ↔ op.Honest E)) := by
  obtain ⟨hvalidate, skip, hrun⟩ := h
  cases op with
  | transferToBlind op =>
    have hex := TransferToBlind.exchanged (E := E) hrun
    exact ⟨_, _, _, _, _, hex, fun _ => op.adds_up_iff hvalidate (hex.delta_le hinv)⟩
  | blindTransfer op =>
    have hex := BlindTransfer.exchanged (E := E) hinv.unique hrun
    refine ⟨_, _, _, _, _, hex, fun hs => ?_⟩
    obtain ⟨hinputs, hsupply⟩ := hex.inputs_le hs hinv
    have hfee := hex.supply_nonneg
    exact op.adds_up_iff hvalidate hex.fee_nonneg (by omega) (hinputs.trans hsupply)
  | transferFromBlind op =>
    have hassets : op.amount.assetId = op.fee.assetId := op.assetId_eq hvalidate
    have hex := TransferFromBlind.exchanged (E := E) hinv.unique hassets hrun
    refine ⟨_, _, _, _, _, hex, fun hs => ?_⟩
    obtain ⟨hinputs, hsupply⟩ := hex.inputs_le hs hinv
    have hamount := hex.supply_nonneg
    have hsum := op.adds_up hvalidate (by omega) (hinputs.trans hsupply)
    refine iff_of_true ⟨?_, fun c hc => absurd hc List.not_mem_nil⟩ trivial
    rw [hsum, CommitmentScheme.sum_nil, Nat.cast_zero]

/-- **Every run**: the invariant does not depend on what the outputs hide. -/
theorem BlindRun.inv {kind : BlindOperation Commitment RangeProof Key → Prop}
    (h : BlindRun E S kind s₀ s) (h₀ : Unblinded s₀) : BlindInv s := by
  induction h with
  | start => exact h₀.inv
  | operation _ _ hstep ih =>
    obtain ⟨_, _, _, _, _, hex, -⟩ := hstep.exchanged ih
    exact hex.inv ih
  | beside _ hstep ih => exact hstep.inv ih

/-- An accepted operation keeps balances backed exactly if it is honest. -/
theorem BlindOperation.Accepted.backed_iff {op : BlindOperation Commitment RangeProof Key}
    (h : op.Accepted E S s s') (hinv : BlindInv s) (hs : Backed E s) : Backed E s' ↔ op.Honest E := by
  obtain ⟨_, _, _, _, _, hex, hiff⟩ := h.exchanged hinv
  rw [hex.backed_iff hs]
  exact hiff hs

/-- **Runs of honest operations** keep balances backed. -/
theorem BlindRun.backed (h : BlindRun E S (·.Honest E) s₀ s) (h₀ : Unblinded s₀) : Backed E s := by
  induction h with
  | start => exact h₀.backed
  | operation hrun hhonest hstep ih => exact (hstep.backed_iff (hrun.inv h₀) ih).mpr hhonest
  | beside _ hstep ih => exact hstep.backed ih

/-- **Confidential balances** are each consumed at most once. While the operations are honest they are
backed, and the first one that is not honest ends it. -/
theorem confidential_backed (E : CommitmentScheme Commitment RangeProof) (S : Settings)
    {s₀ : BlindBooks Commitment Key} (h₀ : Unblinded s₀) :
    (∀ s, BlindRun E S (fun _ => True) s₀ s → ConsumedOnce s) ∧
      ∀ s, BlindRun E S (·.Honest E) s₀ s → Backed E s ∧
        ∀ (op : BlindOperation Commitment RangeProof Key) (s' : BlindBooks Commitment Key),
          op.Accepted E S s s' → (Backed E s' ↔ op.Honest E) := by
  refine ⟨fun s hrun => (hrun.inv h₀).toConsumedOnce, fun s hrun => ⟨hrun.backed h₀, ?_⟩⟩
  intro op s' hstep
  exact hstep.backed_iff (hrun.inv h₀) (hrun.backed h₀)

end Runs

/-! ### Ten that become fifteen -/

/-- A commitment is a number that has its value and its blinding factor as digits, and a range proof
contains nothing but the range. -/
private def digits : CommitmentScheme ℕ (ℕ × ℕ) where
  order := 2 ^ 128
  value c := c % 2 ^ 128
  factor c := c / 2 ^ 128 % 2 ^ 128
  blind f v := 2 ^ 128 * (f % 2 ^ 128) + v % 2 ^ 128
  rangeGetInfo := some
  large := le_rfl
  value_lt c := Nat.mod_lt c (by norm_num)
  value_blind f v := by omega
  factor_blind f v := by omega

private def openOwner : Authority ℕ := ⟨1, [], [(7, 1)], List.nodup_nil, by decide⟩

/-- The first account makes ten of core confidential. -/
private def hideTen (commitments : List ℕ) (hfit : commitments.length < 2 ^ 32) :
    BlindOperation ℕ (ℕ × ℕ) ℕ :=
  .transferToBlind
    { fee := ⟨20, core⟩
      amount := ⟨10, core⟩
      fromAccount := 10
      blindingFactor := 0
      outputs := commitments.map fun c => ⟨c, (0, 100), openOwner⟩
      outputs_fit := by rwa [List.length_map] }

private def publicBooks : BlindBooks ℕ ℕ := { books := smallChain }

private theorem unblinded_publicBooks : Unblinded publicBooks := by
  refine ⟨rfl, rfl, rfl, genesis_smallChain.balances, fun a => ?_⟩
  change Asset.vec ⟨10 ^ 12 - 10 ^ 6, core⟩ a + (Asset.vec ⟨10 ^ 6, core⟩ a + (Asset.vec ⟨1000, 1⟩ a +
    (Asset.vec ⟨500, 2⟩ a + 0))) ≤ maxShareSupply
  have hmax : maxShareSupply = 10 ^ 18 := by decide
  simp only [Asset.vec_apply]
  split_ifs <;> omega

private theorem accepted_hideTen {commitments : List ℕ} {hfit : commitments.length < 2 ^ 32}
    (hvalidate : (hideTen commitments hfit).validate digits = .ok ())
    (hrun : ((hideTen commitments hfit).run smallSettings false).run' publicBooks = some ()) :
    (hideTen commitments hfit).Accepted digits smallSettings publicBooks
      (final ((hideTen commitments hfit).run smallSettings false) publicBooks) :=
  ⟨hvalidate, false, ok_final_of_run' hrun⟩

theorem confidential_backed_ten : ∃ s, BlindRun digits smallSettings (·.Honest digits) publicBooks s ∧
    s.blinded.entries.length = 1 ∧ Backed digits s := by
  have hstep := @accepted_hideTen [10] (by decide) (by decide +kernel) (by decide +kernel)
  have hhonest : (hideTen [10] (by decide)).Honest digits := fun h => absurd h (by decide)
  have hrun := BlindRun.operation .start hhonest hstep
  exact ⟨_, hrun, by decide +kernel, ((confidential_backed digits smallSettings
    unblinded_publicBooks).2 _ hrun).1⟩

theorem not_confidential_backed : ∃ s,
    BlindRun digits smallSettings (fun _ => True) publicBooks s ∧ ¬ Backed digits s := by
  have hstep := @accepted_hideTen [15, 2 ^ 128 - 5] (by decide) (by decide +kernel) (by decide +kernel)
  refine ⟨_, .operation .start trivial hstep, ?_⟩
  rw [hstep.backed_iff unblinded_publicBooks.inv unblinded_publicBooks.backed]
  intro hhonest
  have hlarge := hhonest (by decide) ⟨2 ^ 128 - 5, (0, 100), openOwner⟩ (by simp)
  exact absurd hlarge (by decide)

end FinChain.Ledger
