import FinChain.Ledger.Confidential

/-!
# What the operations on confidential balances do

All three operations are of one kind (`Exchanged`): inputs are consumed, outputs created, and the
confidential supply of one asset moves by what the public balances lose apart from the fee. The fee goes
out of the public balances in every case: in the last two operations it first comes in from the inputs.

An input is found by its commitment. Commitments are unique, so the balance that `do_apply` removes is the
one that `do_evaluate` has looked at, and a balance that is gone is not found again.
-/

namespace FinChain.Ledger

open Exec Protocol

variable {Commitment RangeProof Key : Type}

/-- What the blinded balances hide. -/
def BlindBooks.hidden (E : CommitmentScheme Commitment RangeProof) (s : BlindBooks Commitment Key) :
    ℕ → ℤ :=
  s.blinded.total fun _ b => Asset.vec ⟨E.value b.commitment, b.assetId⟩

/-- Each blinded balance was consumed at most once, and those that were are gone. -/
structure ConsumedOnce (s : BlindBooks Commitment Key) : Prop where
  nodup : s.consumed.Nodup
  gone : ∀ id ∈ s.consumed, id < s.blinded.next ∧ s.blinded.lookup id = none

/-- No two blinded balances have the same commitment. -/
def UniqueCommitments (s : BlindBooks Commitment Key) : Prop :=
  ∀ id id' b b', s.blinded.lookup id = some b → s.blinded.lookup id' = some b' →
    b.commitment = b'.commitment → id = id'

/-- The confidential supply of one asset moves, and does not become negative. -/
theorem addConfidential_ok {assetId : ℕ} {delta : ℤ} {s s' : BlindBooks Commitment Key} {u : Unit}
    (h : addConfidential assetId delta s = .ok u s') :
    0 ≤ s.confidentialSupply assetId + delta ∧
      s' = { s with confidentialSupply := s.confidentialSupply + Asset.vec ⟨delta, assetId⟩ } := by
  unfold addConfidential at h
  rw [get_bind] at h
  obtain ⟨_, -, h⟩ := require_bind_eq_ok.mp h
  obtain ⟨hnonneg, h⟩ := assert_bind_eq_ok.mp h
  obtain rfl := update_eq_ok.mp h
  refine ⟨hnonneg, ?_⟩
  congr 1
  funext a
  rw [Pi.add_apply]
  unfold Asset.vec
  by_cases ha : a = assetId
  · rw [ha, Function.update_self, Pi.single_eq_same]
  · rw [Function.update_of_ne ha, Pi.single_eq_of_ne ha, add_zero]

/-- Only the blinded balances and what was consumed matter. -/
theorem ConsumedOnce.congr {s s' : BlindBooks Commitment Key} (h : ConsumedOnce s)
    (hblinded : s'.blinded = s.blinded) (hconsumed : s'.consumed = s.consumed) : ConsumedOnce s' := by
  refine ⟨hconsumed ▸ h.nodup, ?_⟩
  rw [hblinded, hconsumed]
  exact h.gone

/-! ### Lists of inputs and outputs -/

section Loops

variable [DecidableEq Commitment] {E : CommitmentScheme Commitment RangeProof}
  {s s' : BlindBooks Commitment Key}

theorem findCommitment_some {c : Commitment} {found : ℕ × BlindedBalance Commitment Key}
    (h : s.findCommitment c = some found) :
    s.blinded.lookup found.1 = some found.2 ∧ found.2.commitment = c := by
  have hc := List.find?_some h
  exact ⟨Index.lookup_of_mem_entries (List.mem_of_find?_eq_some h), of_decide_eq_true hc⟩

theorem findCommitment_none {c : Commitment} (h : s.findCommitment c = none) {id : ℕ}
    {b : BlindedBalance Commitment Key} (hb : s.blinded.lookup id = some b) : b.commitment ≠ c := by
  intro hc
  have hnot := List.find?_eq_none.mp h (id, b) (Index.mem_entries_of_lookup hb)
  exact hnot (decide_eq_true hc)

/-- Balances with the given commitments are gone. -/
structure Consumes (E : CommitmentScheme Commitment RangeProof) (assetId : ℕ) (inputs : List Commitment)
    (s s' : BlindBooks Commitment Key) : Prop where
  books : s'.books = s.books
  supply : s'.confidentialSupply = s.confidentialSupply
  hidden : s'.hidden E = s.hidden E - Asset.vec ⟨E.sum inputs, assetId⟩
  old : ∀ id b, s'.blinded.lookup id = some b → s.blinded.lookup id = some b
  consumedOnce : ConsumedOnce s → ConsumedOnce s'

/-- **The inputs** are consumed, each from the asset that all of them are in. -/
theorem consumeInputs_ok {assetId : ℕ} : ∀ {inputs : List (BlindInput Commitment Key)}
    {s s' : BlindBooks Commitment Key} {u : Unit},
    (∀ input ∈ inputs, ∀ id b, s.blinded.lookup id = some b → b.commitment = input.commitment →
      b.assetId = assetId) →
    consumeInputs inputs s = .ok u s' →
    Consumes E assetId (inputs.map BlindInput.commitment) s s'
  | [], s, s', _, _, h => by
    obtain ⟨-, rfl⟩ := pure_eq_ok.mp h
    refine ⟨rfl, rfl, ?_, fun _ _ h => h, fun h => h⟩
    rw [List.map_nil, CommitmentScheme.sum_nil, Asset.vec_of_zero (by rfl), sub_zero]
  | input :: inputs, s, s', _, hasset, h => by
    unfold consumeInputs at h
    rw [get_bind] at h
    obtain ⟨⟨id, b⟩, hfound, h⟩ := require_bind_eq_ok.mp h
    rw [update_bind_eq_ok] at h
    obtain ⟨hb, hc⟩ := findCommitment_some hfound
    dsimp only at hb hc h
    have hold : ∀ id' b', (s.blinded.erase id).lookup id' = some b' → s.blinded.lookup id' = some b' := by
      intro id' b' hb'
      rw [Index.lookup_erase] at hb'
      split at hb'
      · cases hb'
      · exact hb'
    have hrest := consumeInputs_ok (fun i hi id' b' hb' =>
      hasset i (List.mem_cons_of_mem _ hi) id' b' (hold id' b' hb')) h
    refine ⟨hrest.books, hrest.supply, ?_, fun id' b' hb' => hold id' b' (hrest.old id' b' hb'), ?_⟩
    · have hassetId := hasset input List.mem_cons_self id b hb hc
      rw [hrest.hidden]
      unfold BlindBooks.hidden
      rw [Index.total_erase _ hb, hc, hassetId, List.map_cons, CommitmentScheme.sum_cons, Nat.cast_add,
        Asset.vec_add]
      abel
    · intro hs
      refine hrest.consumedOnce ⟨?_, ?_⟩
      · -- the balance was there, so it had not been consumed
        refine List.nodup_cons.mpr ⟨fun hmem => ?_, hs.nodup⟩
        rw [(hs.gone id hmem).2] at hb
        cases hb
      · intro id' hid'
        change id' < s.blinded.next ∧ (s.blinded.erase id).lookup id' = none
        rw [Index.lookup_erase]
        rcases List.mem_cons.mp hid' with rfl | hid'
        · refine ⟨s.blinded.fresh _ (AList.lookup_isSome.mp ?_), if_pos rfl⟩
          change (s.blinded.lookup id').isSome
          rw [hb]
          rfl
        · obtain ⟨hlt, hnone⟩ := hs.gone id' hid'
          refine ⟨hlt, ?_⟩
          rw [hnone]
          exact ite_self none

/-- New balances have the given commitments. -/
structure Creates (E : CommitmentScheme Commitment RangeProof) (assetId : ℕ) (outputs : List Commitment)
    (s s' : BlindBooks Commitment Key) : Prop where
  books : s'.books = s.books
  supply : s'.confidentialSupply = s.confidentialSupply
  hidden : s'.hidden E = s.hidden E + Asset.vec ⟨E.sum outputs, assetId⟩
  kept : ∀ id b, s.blinded.lookup id = some b → s'.blinded.lookup id = some b
  old : ∀ id b, s'.blinded.lookup id = some b → s.blinded.lookup id = some b ∨ b.commitment ∈ outputs
  live : ∀ c ∈ outputs, ∃ id b, s'.blinded.lookup id = some b ∧ b.commitment = c
  unique : UniqueCommitments s → UniqueCommitments s'
  consumedOnce : ConsumedOnce s → ConsumedOnce s'

theorem createOutputs_ok {assetId : ℕ} : ∀ {outputs : List (BlindOutput Commitment RangeProof Key)}
    {s s' : BlindBooks Commitment Key} {u : Unit}, createOutputs assetId outputs s = .ok u s' →
    Creates E assetId (outputs.map BlindOutput.commitment) s s'
  | [], s, s', _, h => by
    obtain ⟨-, rfl⟩ := pure_eq_ok.mp h
    refine ⟨rfl, rfl, ?_, fun _ _ h => h, fun _ _ h => .inl h, ?_, fun h => h, fun h => h⟩
    · rw [List.map_nil, CommitmentScheme.sum_nil, Asset.vec_of_zero (by rfl), add_zero]
    · exact fun c hc => absurd hc List.not_mem_nil
  | out :: outputs, s, s', _, h => by
    unfold createOutputs at h
    rw [get_bind] at h
    obtain ⟨hnone, h⟩ := assert_bind_eq_ok.mp h
    rw [update_bind_eq_ok] at h
    have hnext := s.blinded.lookup_next
    have hlookup := fun id => Index.lookup_create s.blinded
      { commitment := out.commitment, assetId := assetId, owner := out.owner } id
    have hrest := createOutputs_ok h
    have hkept : ∀ id b, s.blinded.lookup id = some b →
        (s.blinded.create { commitment := out.commitment, assetId := assetId, owner := out.owner }).lookup
          id = some b := by
      intro id b hb
      rw [hlookup, if_neg, hb]
      rintro rfl
      rw [hnext] at hb
      cases hb
    refine ⟨hrest.books, hrest.supply, ?_, fun id b hb => hrest.kept id b (hkept id b hb), ?_, ?_, ?_, ?_⟩
    · rw [hrest.hidden]
      unfold BlindBooks.hidden
      rw [Index.total_create, List.map_cons, CommitmentScheme.sum_cons, Nat.cast_add, Asset.vec_add]
      abel
    · intro id b hb
      rcases hrest.old id b hb with hb | hmem
      · change (Index.create _ _).lookup id = some b at hb
        rw [hlookup] at hb
        split at hb
        · obtain rfl := Option.some.inj hb
          exact .inr List.mem_cons_self
        · exact .inl hb
      · exact .inr (List.mem_cons_of_mem _ hmem)
    · intro c hc
      rcases List.mem_cons.mp hc with rfl | hc
      · exact ⟨s.blinded.next, _, hrest.kept _ _ ((hlookup _).trans (if_pos rfl)), rfl⟩
      · exact hrest.live c hc
    · intro hunique
      refine hrest.unique ?_
      intro id id' b b' hb hb' hcommitment
      change (Index.create _ _).lookup id = some b at hb
      change (Index.create _ _).lookup id' = some b' at hb'
      rw [hlookup] at hb hb'
      split at hb
      · next hid =>
        split at hb'
        · next hid' => rw [hid, hid']
        · obtain rfl := Option.some.inj hb
          exact absurd hcommitment.symm (findCommitment_none hnone hb')
      · split at hb'
        · obtain rfl := Option.some.inj hb'
          exact absurd hcommitment (findCommitment_none hnone hb)
        · exact hunique id id' b b' hb hb' hcommitment
    · intro hs
      refine hrest.consumedOnce ⟨hs.nodup, fun id hid => ?_⟩
      obtain ⟨hlt, hgone⟩ := hs.gone id hid
      refine ⟨Nat.lt_succ_of_lt hlt, ?_⟩
      change (Index.create _ _).lookup id = none
      rw [hlookup, if_neg (Nat.ne_of_lt hlt), hgone]

theorem verifyInputs_ok [DecidableEq Key] {assetId : ℕ} : ∀ {inputs : List (BlindInput Commitment Key)}
    {u : Unit}, verifyInputs assetId inputs s = .ok u s' → s' = s ∧ ∀ input ∈ inputs,
      ∃ id b, s.blinded.lookup id = some b ∧ b.commitment = input.commitment ∧ b.assetId = assetId
  | [], _, h => by
    obtain ⟨-, rfl⟩ := pure_eq_ok.mp h
    exact ⟨rfl, fun _ hi => absurd hi List.not_mem_nil⟩
  | input :: inputs, _, h => by
    unfold verifyInputs at h
    rw [get_bind] at h
    obtain ⟨found, hfound, h⟩ := require_bind_eq_ok.mp h
    obtain ⟨hasset, h⟩ := assert_bind_eq_ok.mp h
    obtain ⟨-, h⟩ := assert_bind_eq_ok.mp h
    obtain ⟨hb, hc⟩ := findCommitment_some hfound
    obtain ⟨hs, hrest⟩ := verifyInputs_ok h
    refine ⟨hs, fun i hi => ?_⟩
    rcases List.mem_cons.mp hi with rfl | hi
    · exact ⟨found.1, found.2, hb, hc, hasset⟩
    · exact hrest i hi

end Loops

/-! ### The operations -/

theorem onPublicBooks_ok {α : Type} {x : LedgerM α} {a : α} {s s' : BlindBooks Commitment Key} :
    onPublicBooks x s = .ok a s' ↔ ∃ b, x s.books = .ok a b ∧ s' = { s with books := b } := by
  unfold onPublicBooks
  cases h : x s.books with
  | ok a' b => simp [eq_comm]
  | error e b => simp

theorem keepsOk_balances_payFeeInto (fbaId : ℕ) (S : Settings) (account : ℕ) (f : ℤ) :
    KeepsOk (fun s s' : Books => s'.balances = s.balances) (payFeeInto fbaId S account f) := by
  have hF : Frame fun s s' : Books => s'.balances = s.balances := Frame.eq Books.balances
  have hpay : KeepsOk (fun s s' : Books => s'.balances = s.balances) (payFee account f) := by
    refine hF.keepsOk_get_bind fun s => hF.keepsOk_get_bind fun s => hF.keepsOk_require_bind fun a => ?_
    exact keepsOk_update fun s => rfl
  refine hF.keepsOk_get_bind fun s => keepsOk_ite ?_ hpay
  refine hF.keepsOk_get_bind fun s => hF.keepsOk_require_bind fun fba => keepsOk_ite hpay ?_
  exact keepsOk_update fun s => rfl

/-- **An accepted run**: the fee is not negative, `do_evaluate` returns, and `do_apply` starts with the
same balances and is followed by the payment of the fee. -/
theorem runBlind_ok {S : Settings} {skip : Bool} {feePayer : ℕ} {fee : Asset} {kind : OperationKind}
    {fbaId : ℕ} {doEvaluate doApply : BlindM Commitment Key Unit} {s s' : BlindBooks Commitment Key}
    {u : Unit} (hread : ∀ {s s' : BlindBooks Commitment Key} {u}, doEvaluate s = .ok u s' → s' = s)
    (h : runBlind S skip feePayer fee kind (payFeeInto fbaId) doEvaluate doApply s = .ok u s') :
    0 ≤ fee.amount ∧ doEvaluate s = .ok () s ∧ ∃ b s₁ b', b.balances = s.books.balances ∧
      doApply { s with books := b } = .ok () s₁ ∧ adjustBalance feePayer fee.neg s₁.books = .ok () b' ∧
      s' = { s₁ with books := b' } := by
  unfold runBlind at h
  obtain ⟨prepared, _, hx, h⟩ := bind_eq_ok.mp h
  obtain ⟨b₀, hprepare, rfl⟩ := onPublicBooks_ok.mp hx
  obtain ⟨rfl, hfee, -⟩ := prepareFee_ok hprepare
  rw [get_bind] at h
  obtain ⟨-, h⟩ := assert_bind_eq_ok.mp h
  obtain ⟨_, s₁, hevaluate, h⟩ := bind_eq_ok.mp h
  obtain rfl := hread hevaluate
  obtain ⟨_, _, hx₁, h⟩ := bind_eq_ok.mp h
  obtain ⟨b₁, hconvert, rfl⟩ := onPublicBooks_ok.mp hx₁
  obtain ⟨t, hb₁, -⟩ := convertFee_ok hconvert
  obtain ⟨_, _, hx₂, h⟩ := bind_eq_ok.mp h
  obtain ⟨b₂, hpay, rfl⟩ := onPublicBooks_ok.mp hx₂
  have hbalances : b₂.balances = b₁.balances := keepsOk_balances_payFeeInto _ _ _ _ _ _ _ hpay
  obtain ⟨_, s₂, happly, h⟩ := bind_eq_ok.mp h
  obtain ⟨b₃, hadjust, rfl⟩ := onPublicBooks_ok.mp h
  refine ⟨hfee, hevaluate, b₂, s₂, b₃, ?_, happly, hadjust, rfl⟩
  rw [hbalances, hb₁]

/-- What an accepted operation does: inputs are consumed, outputs created, and the confidential supply of
the asset moves by what the public balances lose apart from the fee. -/
structure Exchanged (E : CommitmentScheme Commitment RangeProof) (assetId : ℕ) (delta : ℤ) (fee : Asset)
    (inputs outputs : List Commitment) (s s' : BlindBooks Commitment Key) : Prop where
  fee_nonneg : 0 ≤ fee.amount
  supply : s'.confidentialSupply = s.confidentialSupply + Asset.vec ⟨delta, assetId⟩
  supply_nonneg : 0 ≤ s.confidentialSupply assetId + delta
  balances : held s'.books.balances = held s.books.balances - Asset.vec ⟨delta, assetId⟩ - fee.vec
  nonneg : BalancesNonneg s.books.balances → BalancesNonneg s'.books.balances
  hidden : s'.hidden E =
    s.hidden E - Asset.vec ⟨E.sum inputs, assetId⟩ + Asset.vec ⟨E.sum outputs, assetId⟩
  covered : (E.sum inputs : ℤ) ≤ s.hidden E assetId
  old : ∀ id b, s'.blinded.lookup id = some b → s.blinded.lookup id = some b ∨ b.commitment ∈ outputs
  live : ∀ c ∈ outputs, ∃ id b, s'.blinded.lookup id = some b ∧ b.commitment = c
  unique : UniqueCommitments s → UniqueCommitments s'
  consumedOnce : ConsumedOnce s → ConsumedOnce s'

theorem vec_self (x : ℤ) (assetId : ℕ) : Asset.vec ⟨x, assetId⟩ assetId = x := by
  rw [Asset.vec_apply, if_pos rfl]

theorem BlindBooks.hidden_nonneg (E : CommitmentScheme Commitment RangeProof)
    (s : BlindBooks Commitment Key) (a : ℕ) : 0 ≤ s.hidden E a := by
  have hnonneg : 0 ≤ s.hidden E :=
    Index.total_nonneg fun _ b _ => Asset.vec_nonneg (Int.natCast_nonneg (E.value b.commitment))
  exact hnonneg a

theorem Consumes.covered {E : CommitmentScheme Commitment RangeProof} {s s' : BlindBooks Commitment Key}
    {assetId : ℕ} {inputs : List Commitment} (h : Consumes E assetId inputs s s') :
    (E.sum inputs : ℤ) ≤ s.hidden E assetId := by
  have hnonneg := s'.hidden_nonneg E assetId
  rw [h.hidden, Pi.sub_apply, vec_self] at hnonneg
  omega

theorem Consumes.unique {E : CommitmentScheme Commitment RangeProof} {s s' : BlindBooks Commitment Key}
    {assetId : ℕ} {inputs : List Commitment} (h : Consumes E assetId inputs s s')
    (hs : UniqueCommitments s) : UniqueCommitments s' :=
  fun id id' b b' hb hb' => hs id id' b b' (h.old id b hb) (h.old id' b' hb')

theorem verifyOwners_ok {outputs : List (BlindOutput Commitment RangeProof Key)}
    {s s' : BlindBooks Commitment Key} {u : Unit} (h : verifyOwners outputs s = .ok u s') : s' = s := by
  unfold verifyOwners at h
  rw [get_bind] at h
  exact (assert_eq_ok.mp h).2

theorem requireAsset_ok {assetId : ℕ} {a : AssetObject} {s s' : BlindBooks Commitment Key}
    (h : requireAsset assetId s = .ok a s') : s' = s := by
  unfold requireAsset at h
  rw [get_bind] at h
  cases hlookup : s.books.assets.lookup assetId with
  | none =>
    rw [hlookup] at h
    cases h
  | some a' =>
    rw [hlookup] at h
    exact (pure_eq_ok.mp h).2.symm

section Operations

variable [DecidableEq Commitment] {E : CommitmentScheme Commitment RangeProof} {S : Settings} {skip : Bool}
  {s s' : BlindBooks Commitment Key} {u : Unit}

/-- The inputs that were verified are in one asset, whichever balance they stand for. -/
theorem assetId_of_verified [DecidableEq Key] (hunique : UniqueCommitments s) {assetId : ℕ}
    {inputs : List (BlindInput Commitment Key)} (h : verifyInputs assetId inputs s = .ok u s') :
    ∀ input ∈ inputs, ∀ id b, s.blinded.lookup id = some b → b.commitment = input.commitment →
      b.assetId = assetId := by
  intro input hinput id b hb hc
  obtain ⟨id', b', hb', hc', hasset⟩ := (verifyInputs_ok h).2 input hinput
  obtain rfl := hunique id id' b b' hb hb' (hc.trans hc'.symm)
  rw [hb] at hb'
  obtain rfl := Option.some.inj hb'
  exact hasset

theorem TransferToBlind.exchanged [DecidableEq Key] {op : TransferToBlind Commitment RangeProof Key}
    (h : (BlindOperation.transferToBlind op).run S skip s = .ok u s') :
    Exchanged E op.amount.assetId op.amount.amount op.fee [] (op.outputs.map BlindOutput.commitment) s s' := by
  have hread : ∀ {s s' : BlindBooks Commitment Key} {u : Unit}, op.doEvaluate s = .ok u s' → s' = s := by
    intro s s' u h
    unfold doEvaluate at h
    obtain ⟨a, s₁, hasset, h₁⟩ := bind_eq_ok.mp h
    obtain rfl := requireAsset_ok hasset
    obtain ⟨-, h₂⟩ := assert_bind_eq_ok.mp h₁
    obtain ⟨-, h₃⟩ := assert_bind_eq_ok.mp h₂
    obtain ⟨-, h₄⟩ := assert_bind_eq_ok.mp h₃
    exact verifyOwners_ok h₄
  obtain ⟨hfee, -, b, s₁, b', hb, happly, hpaid, rfl⟩ := runBlind_ok hread h
  unfold doApply at happly
  obtain ⟨_, _, hx, hrest⟩ := bind_eq_ok.mp happly
  obtain ⟨b₁, hadjust, rfl⟩ := onPublicBooks_ok.mp hx
  obtain ⟨_, s₂, hadd, hcreate⟩ := bind_eq_ok.mp hrest
  obtain ⟨hnonneg, rfl⟩ := addConfidential_ok hadd
  have hc := createOutputs_ok (E := E) hcreate
  obtain ⟨t, ht, hheld, -⟩ := adjustBalance_ok hadjust
  obtain ⟨t', ht', hheld', -⟩ := adjustBalance_ok hpaid
  refine ⟨hfee, hc.supply, hnonneg, ?_, fun hs => ?_, ?_, ?_, hc.old, hc.live, hc.unique, ?_⟩
  · rw [ht']
    change held t' = _
    have hbooks : s₁.books.balances = t := by
      rw [hc.books, ht]
    have hb' : (b : Books).balances = s.books.balances := hb
    rw [hheld', hbooks, hheld, Asset.vec_neg, Asset.vec_neg]
    change held b.balances + _ + _ = _
    rw [hb', sub_eq_add_neg, sub_eq_add_neg]
  · refine adjustBalance_nonneg ?_ hpaid
    rw [hc.books]
    refine adjustBalance_nonneg ?_ hadjust
    change BalancesNonneg b.balances
    rwa [hb]
  · rw [CommitmentScheme.sum_nil, Nat.cast_zero, Asset.vec_of_zero (by rfl), sub_zero]
    exact hc.hidden
  · rw [CommitmentScheme.sum_nil]
    exact s.hidden_nonneg E _
  · exact fun hs => (hc.consumedOnce (hs.congr rfl rfl)).congr rfl rfl

theorem BlindTransfer.exchanged [DecidableEq Key] {op : BlindTransfer Commitment RangeProof Key}
    (hunique : UniqueCommitments s) (h : (BlindOperation.blindTransfer op).run S skip s = .ok u s') :
    Exchanged E op.fee.assetId (-op.fee.amount) op.fee (op.inputs.map BlindInput.commitment)
      (op.outputs.map BlindOutput.commitment) s s' := by
  have hparts : ∀ {s s' : BlindBooks Commitment Key} {u : Unit}, op.doEvaluate s = .ok u s' →
      ∃ u, verifyInputs op.fee.assetId op.inputs s = .ok u s' := by
    intro s s' u h
    unfold doEvaluate at h
    obtain ⟨a, s₁, hasset, h₁⟩ := bind_eq_ok.mp h
    obtain rfl := requireAsset_ok hasset
    obtain ⟨_, s₂, howners, h₂⟩ := bind_eq_ok.mp h₁
    obtain rfl := verifyOwners_ok howners
    exact ⟨_, h₂⟩
  obtain ⟨hfee, hevaluate, b, s₁, b', hb, happly, hpaid, rfl⟩ :=
    runBlind_ok (fun h => (verifyInputs_ok (hparts h).choose_spec).1) h
  have hasset := assetId_of_verified hunique (hparts hevaluate).choose_spec
  unfold doApply at happly
  obtain ⟨_, _, hx, hrest⟩ := bind_eq_ok.mp happly
  obtain ⟨b₁, hadjust, rfl⟩ := onPublicBooks_ok.mp hx
  obtain ⟨_, s₂, hconsume, hrest₁⟩ := bind_eq_ok.mp hrest
  obtain ⟨_, s₃, hcreate, hadd⟩ := bind_eq_ok.mp hrest₁
  have hi : Consumes E op.fee.assetId (op.inputs.map BlindInput.commitment) { s with books := b₁ } s₂ :=
    consumeInputs_ok hasset hconsume
  have ho := createOutputs_ok (E := E) hcreate
  obtain ⟨hnonneg, rfl⟩ := addConfidential_ok hadd
  obtain ⟨t, ht, hheld, -⟩ := adjustBalance_ok hadjust
  obtain ⟨t', ht', hheld', -⟩ := adjustBalance_ok hpaid
  have hbooks : s₃.books = b₁ := ho.books.trans hi.books
  have hsupply : s₃.confidentialSupply = s.confidentialSupply := ho.supply.trans hi.supply
  refine ⟨hfee, ?_, ?_, ?_, fun hs => ?_, ?_, hi.covered, ?_, ho.live, ?_, ?_⟩
  · change s₃.confidentialSupply + _ = _
    rw [hsupply]
  · rwa [hsupply] at hnonneg
  · rw [ht']
    change held t' = _
    change held t' = held s₃.books.balances + _ at hheld'
    rw [hheld', hbooks, ht, Asset.vec_neg]
    change held t + _ = _
    change held t = held b.balances + _ at hheld
    have hvec : Asset.vec ⟨-op.fee.amount, op.fee.assetId⟩ = -op.fee.vec := Asset.vec_neg op.fee
    rw [hheld, hb, hvec]
    abel
  · refine adjustBalance_nonneg ?_ hpaid
    change BalancesNonneg s₃.books.balances
    rw [hbooks]
    refine adjustBalance_nonneg ?_ hadjust
    change BalancesNonneg b.balances
    rwa [hb]
  · change s₃.hidden E = _
    rw [ho.hidden, hi.hidden]
    rfl
  · intro id x hx
    exact (ho.old id x hx).imp_left (hi.old id x)
  · exact fun hs => ho.unique (hi.unique hs)
  · exact fun hs => (ho.consumedOnce (hi.consumedOnce (hs.congr rfl rfl))).congr rfl rfl

theorem TransferFromBlind.exchanged [DecidableEq Key] {op : TransferFromBlind Commitment Key}
    (hunique : UniqueCommitments s) (hassets : op.amount.assetId = op.fee.assetId)
    (h : (BlindOperation.transferFromBlind op : BlindOperation Commitment RangeProof Key).run S skip s =
      .ok u s') :
    Exchanged E op.fee.assetId (-(op.amount.amount + op.fee.amount)) op.fee
      (op.inputs.map BlindInput.commitment) [] s s' := by
  have hparts : ∀ {s s' : BlindBooks Commitment Key} {u : Unit}, op.doEvaluate s = .ok u s' →
      ∃ u, verifyInputs op.fee.assetId op.inputs s = .ok u s' := by
    intro s s' u h
    unfold doEvaluate at h
    obtain ⟨a, s₁, hasset, h₁⟩ := bind_eq_ok.mp h
    obtain rfl := requireAsset_ok hasset
    exact ⟨_, h₁⟩
  obtain ⟨hfee, hevaluate, b, s₁, b', hb, happly, hpaid, rfl⟩ :=
    runBlind_ok (fun h => (verifyInputs_ok (hparts h).choose_spec).1) h
  have hasset := assetId_of_verified hunique (hparts hevaluate).choose_spec
  unfold doApply at happly
  rw [hassets] at happly
  obtain ⟨_, _, hx, hrest⟩ := bind_eq_ok.mp happly
  obtain ⟨b₁, hadjust, rfl⟩ := onPublicBooks_ok.mp hx
  obtain ⟨_, _, hy, hrest₁⟩ := bind_eq_ok.mp hrest
  obtain ⟨b₂, hreceive, rfl⟩ := onPublicBooks_ok.mp hy
  obtain ⟨_, s₂, hconsume, hadd⟩ := bind_eq_ok.mp hrest₁
  have hi : Consumes E op.fee.assetId (op.inputs.map BlindInput.commitment) { s with books := b₂ } s₂ :=
    consumeInputs_ok hasset hconsume
  obtain ⟨hnonneg, rfl⟩ := addConfidential_ok hadd
  obtain ⟨t, ht, hheld, -⟩ := adjustBalance_ok hadjust
  obtain ⟨t₂, ht₂, hheld₂, -⟩ := adjustBalance_ok hreceive
  obtain ⟨t', ht', hheld', -⟩ := adjustBalance_ok hpaid
  have hbooks : s₂.books = b₂ := hi.books
  have hsupply : s₂.confidentialSupply = s.confidentialSupply := hi.supply
  refine ⟨hfee, ?_, ?_, ?_, fun hs => ?_, ?_, hi.covered, ?_, ?_, hi.unique, ?_⟩
  · change s₂.confidentialSupply + _ = _
    rw [hsupply]
  · rwa [hsupply] at hnonneg
  · rw [ht']
    change held t' = _
    change held t' = held s₂.books.balances + _ at hheld'
    rw [hheld', hbooks, ht₂, Asset.vec_neg]
    change held t₂ + _ = _
    change held t₂ = held b₁.balances + _ at hheld₂
    rw [hheld₂, ht]
    change held t + _ + _ = _
    change held t = held b.balances + _ at hheld
    have hvec : Asset.vec ⟨-(op.amount.amount + op.fee.amount), op.fee.assetId⟩ =
        -op.amount.vec - op.fee.vec := by
      have hfeeVec : op.fee.vec = Asset.vec ⟨op.fee.amount, op.fee.assetId⟩ := rfl
      have hamountVec : op.amount.vec = Asset.vec ⟨op.amount.amount, op.fee.assetId⟩ := by
        rw [← hassets]
      have hneg : Asset.vec ⟨-(op.amount.amount + op.fee.amount), op.fee.assetId⟩ =
          -Asset.vec ⟨op.amount.amount + op.fee.amount, op.fee.assetId⟩ := Asset.vec_neg ⟨_, _⟩
      rw [hneg, Asset.vec_add, hfeeVec, hamountVec]
      abel
    rw [hheld, hb, hvec]
    abel
  · refine adjustBalance_nonneg ?_ hpaid
    change BalancesNonneg s₂.books.balances
    rw [hbooks]
    refine adjustBalance_nonneg ?_ hreceive
    refine adjustBalance_nonneg ?_ hadjust
    change BalancesNonneg b.balances
    rwa [hb]
  · change s₂.hidden E = _
    rw [CommitmentScheme.sum_nil, Nat.cast_zero, Asset.vec_of_zero (a := ⟨0, _⟩) rfl, add_zero, hi.hidden]
    rfl
  · exact fun id x hx => .inl (hi.old id x hx)
  · exact fun c hc => absurd hc List.not_mem_nil
  · exact fun hs => (hi.consumedOnce (hs.congr rfl rfl)).congr rfl rfl

end Operations

end FinChain.Ledger
