import FinChain.Ledger.MarginPostings
import Mathlib.Tactic.Linarith
import Mathlib.Tactic.Positivity
import Mathlib.Tactic.Ring

/-!
# Operations on assets as postings

Every operation takes its fee in, does its work and takes the fee from the balance of the payer. The
first and the last part are payments, and `postings_run` puts them around the postings of the work.
What `do_evaluate` has found holds when the work begins, since a fee does not change more than
balances, fees and statistics.
-/

namespace FinChain.Ledger

open Exec

variable {L : Licence} {skip : Bool}

/-! ### Fees -/

/-- The payments of an evaluator that changes nothing before it is applied. -/
theorem Evaluator.run_paid {ρ : Type} {S : Settings} {e : Evaluator ρ} {s s' : Books}
    {u : Unit} (hread : ∀ {m s₁}, e.doEvaluate s = .ok m s₁ → s₁ = s)
    (hle : ∀ f, 0 ≤ f → e.coreFeePaid f ≤ f) (h : e.run S skip s = .ok u s') :
    ∃ f m s₂ s₃ s₄, prepareFee S e.feePayer e.fee s = .ok f s ∧ e.doEvaluate s = .ok m s ∧
      Paid s (if e.fee.assetId = core then 0 else e.fee.vec - Asset.vec ⟨e.coreFeePaid f, core⟩) s₂ ∧
      e.payFee (e.coreFeePaid f) s₂ = .ok () s₃ ∧ e.doApply (e.coreFeePaid f) m s₃ = .ok () s₄ ∧
      Paid s₄ (-e.fee.vec) s' := by
  obtain ⟨f, m, s₁, s₂, s₃, s₄, hprepare, hevaluate, hconvert, hpay, happly, hadjust⟩ := run_ok h
  obtain rfl := hread hevaluate
  obtain ⟨-, hfee, hnonneg, -, hpool⟩ := prepareFee_ok hprepare
  have hlast := paid_adjustBalance hadjust
  rw [Asset.vec_neg] at hlast
  have hconverted := paid_convertFee hfee
    (fun hid d hd => (hle f hnonneg).trans (hpool hid d hd)) hconvert
  exact ⟨f, m, s₂, s₃, s₄, hprepare, hevaluate, hconverted, hpay, happly, hlast⟩

/-- A fee in core and what it is converted from. -/
theorem fee_vec {fee : Asset} {f : ℤ} (hcore : fee.assetId = core → f = fee.amount) :
    (if fee.assetId = core then 0 else fee.vec - Asset.vec ⟨f, core⟩) + Asset.vec ⟨f, core⟩ =
      fee.vec := by
  split
  · next hid =>
    rw [zero_add, hcore hid, ← hid]
  · exact sub_add_cancel _ _

/-- An operation that pays its fee in the usual way is what it does when it is applied. -/
theorem postings_run {ρ : Type} {S : Settings} {e : Evaluator ρ} {s s' : Books}
    {u : Unit} (hs : L.Keeps s) (hid : e.coreFeePaid = id)
    (hpay : e.payFee = Ledger.payFee e.feePayer)
    (hread : ∀ {m s₁}, e.doEvaluate s = .ok m s₁ → s₁ = s)
    (happly : ∀ {f m v s₁ s₂}, e.doEvaluate s = .ok m s → Paid s v s₁ → L.Keeps s₁ →
      e.doApply f m s₁ = .ok () s₂ → Postings L s₁ 0 s₂)
    (h : e.run S skip s = .ok u s') : Postings L s 0 s' := by
  obtain ⟨f, m, s₂, s₃, s₄, hprepare, hevaluate, hconvert, hfee, happlied, hlast⟩ :=
    Evaluator.run_paid hread (fun f _ => (congrFun hid f).le) h
  obtain ⟨-, -, hnonneg, hcore, -⟩ := prepareFee_ok hprepare
  rw [hpay] at hfee
  rw [hid] at hconvert
  rw [hid] at hfee
  have hfirst := (hconvert.trans (paid_payFee hnonneg hfee)).cast (fee_vec hcore)
  have hs₃ := (Postings.paid hfirst).keeps hs
  refine (((Postings.paid hfirst).trans (happly hevaluate hfirst hs₃ happlied)).trans
    (.paid hlast)).cast ?_
  abel

/-! ### Call prices -/

theorem divInt_le {a b : ℤ} (ha : 0 < a) (hb : 0 < b) :
    0 < (Rat.divInt a b).num ∧ (Rat.divInt a b).num ≤ a ∧ ((Rat.divInt a b).den : ℤ) ≤ b := by
  refine ⟨?_, Int.le_of_dvd ha (Rat.num_dvd a hb.ne'), Int.le_of_dvd hb (Rat.den_dvd a b)⟩
  rw [Rat.num_pos]
  rw [Rat.divInt_eq_div]
  positivity

/-- The loop that makes numerator and denominator small: with `n` rounds left they are not above
`2 ^ n * 10 ^ 17 + 2`, and at the end in range. -/
theorem Price.shrink_inRange (fuel : ℕ) {cp : ℚ} (hpos : 0 < cp.num)
    (hnum : cp.num ≤ 2 ^ fuel * 10 ^ 17 + 2) (hden : (cp.den : ℤ) ≤ 2 ^ fuel * 10 ^ 17 + 2) :
    0 < (shrink (fun n => n / 2 + 1) fuel cp).num ∧
      (shrink (fun n => n / 2 + 1) fuel cp).num ≤ maxShareSupply ∧
      ((shrink (fun n => n / 2 + 1) fuel cp).den : ℤ) ≤ maxShareSupply := by
  induction fuel generalizing cp with
  | zero =>
    unfold shrink maxShareSupply
    refine ⟨hpos, ?_, ?_⟩ <;> omega
  | succ fuel ih =>
    unfold shrink
    split
    · have hdenPos : (0 : ℤ) < cp.den := by exact_mod_cast cp.den_pos
      have hbound : (2 : ℤ) ^ (fuel + 1) * 10 ^ 17 = 2 * (2 ^ fuel * 10 ^ 17) := by ring
      rw [hbound] at hnum hden
      obtain ⟨hpos', hnum', hden'⟩ := divInt_le (a := cp.num / 2 + 1)
        (b := (cp.den : ℤ) / 2 + 1) (by omega) (by omega)
      refine ih hpos' (hnum'.trans ?_) (hden'.trans ?_) <;> omega
    · next hsmall =>
      push Not at hsmall
      exact ⟨hpos, hsmall.1, hsmall.2⟩

/-- **`price::call_price`** of a position is in range. -/
theorem Price.callPrice_ok {debt collateral : Asset} {ratio : ℕ} {p : Price} (hdebt : 0 < debt.amount)
    (hdebt' : debt.amount < 2 ^ 64) (hcollateral : 0 < collateral.amount)
    (hcollateral' : collateral.amount < 2 ^ 64) (hratio : PriceFeed.RatioInRange ratio)
    (h : callPrice debt collateral ratio = .ok p) :
    p.InRange ∧ p.base.assetId = collateral.assetId ∧ p.quote.assetId = debt.assetId := by
  obtain ⟨hratio, hratio'⟩ := hratio
  unfold callPrice at h
  rw [if_neg hcollateral.ne'] at h
  unfold collateralRatioDenom at h
  have hcp : Rat.divInt debt.amount collateral.amount * Rat.divInt ratio 1000 =
      Rat.divInt (debt.amount * ratio) (collateral.amount * 1000) :=
    Rat.divInt_mul_divInt _ _
  rw [hcp] at h
  have hnumPos : 0 < debt.amount * ratio := mul_pos hdebt (by omega)
  obtain ⟨hpos, hnum, hden⟩ := divInt_le hnumPos
    (mul_pos hcollateral (by norm_num : (0 : ℤ) < 1000))
  have hbig : (2 : ℤ) ^ 80 ≤ 2 ^ 128 * 10 ^ 17 + 2 := by norm_num
  have hnum' : debt.amount * ratio ≤ 2 ^ 80 := by
    calc debt.amount * ratio ≤ 2 ^ 64 * 2 ^ 16 :=
          mul_le_mul hdebt'.le (by omega) (by omega) (by norm_num)
      _ = 2 ^ 80 := by norm_num
  have hden' : collateral.amount * 1000 ≤ 2 ^ 80 := by omega
  obtain ⟨hpos', hnum'', hden''⟩ := shrink_inRange 128 hpos (by omega) (by omega)
  unfold Asset.div at h
  simp only at h
  split at h
  · cases h
    refine ⟨⟨⟨?_, hden''⟩, hpos', hnum''⟩, rfl, rfl⟩
    change (1 : ℤ) ≤ ((shrink _ _ _).den : ℤ)
    exact_mod_cast (shrink _ _ _).den_pos
  · cases h

/-! ### Transfers, issuing and fees -/

theorem Transfer.doEvaluate_read {S : Settings} {op : Transfer} {s s₁ : Books} {m : Unit}
    (h : op.doEvaluate S s = .ok m s₁) : s₁ = s := by
  unfold doEvaluate at h
  rw [get_bind] at h
  obtain ⟨-, -, h⟩ := require_bind_eq_ok.mp h
  obtain ⟨-, -, h⟩ := require_bind_eq_ok.mp h
  obtain ⟨a, -, h⟩ := require_bind_eq_ok.mp h
  obtain ⟨-, h⟩ := assert_bind_eq_ok.mp h
  obtain ⟨-, h⟩ := assert_bind_eq_ok.mp h
  obtain ⟨-, h⟩ := assert_bind_eq_ok.mp h
  exact (assert_eq_ok.mp h).2

theorem postings_transfer {S : Settings} {op : Transfer} {s s' : Books} {u : Unit} (hs : L.Keeps s)
    (h : (op.evaluator S).run S skip s = .ok u s') : Postings L s 0 s' := by
  refine postings_run hs rfl rfl Transfer.doEvaluate_read ?_ h
  intro f m v s₁ s₂ _ _ _ happly
  obtain ⟨_, s₃, hfrom, hto⟩ := bind_eq_ok.mp happly
  refine ((Postings.paid (paid_adjustBalance hfrom)).trans (.paid (paid_adjustBalance hto))).cast ?_
  rw [Asset.vec_neg]
  exact neg_add_cancel _

theorem AssetIssue.doEvaluate_ok {S : Settings} {op : AssetIssue} {s s₁ : Books} {m : Unit}
    (h : op.doEvaluate S s = .ok m s₁) :
    s₁ = s ∧ s.bitassets.lookup op.assetToIssue.assetId = none ∧
      ∃ a d, s.assets.lookup op.assetToIssue.assetId = some a ∧
        s.dynamicData.lookup op.assetToIssue.assetId = some d ∧
        d.currentSupply + op.assetToIssue.amount ≤ a.options.maxSupply := by
  unfold doEvaluate at h
  rw [get_bind] at h
  obtain ⟨a, ha, h⟩ := require_bind_eq_ok.mp h
  obtain ⟨-, h⟩ := assert_bind_eq_ok.mp h
  obtain ⟨hissued, h⟩ := assert_bind_eq_ok.mp h
  obtain ⟨-, -, h⟩ := require_bind_eq_ok.mp h
  obtain ⟨-, h⟩ := assert_bind_eq_ok.mp h
  obtain ⟨d, hd, h⟩ := require_bind_eq_ok.mp h
  obtain ⟨hmax, rfl⟩ := assert_eq_ok.mp h
  exact ⟨rfl, Option.not_isSome_iff_eq_none.mp (Bool.eq_false_iff.mp hissued), a, d, ha, hd, hmax⟩

theorem postings_assetIssue {S : Settings} {op : AssetIssue} {s s' : Books} {u : Unit}
    (hs : L.Keeps s) (h : (op.evaluator S).run S skip s = .ok u s') : Postings L s 0 s' := by
  refine postings_run hs rfl rfl (fun hm => (AssetIssue.doEvaluate_ok hm).1) ?_ h
  intro f m v s₁ s₂ hevaluate hfee hs₁ happly
  obtain ⟨-, hnone, a, d, ha, hd, hmax⟩ := AssetIssue.doEvaluate_ok hevaluate
  obtain ⟨_, s₃, hbalance, hdata⟩ := bind_eq_ok.mp happly
  have hpaid := paid_adjustBalance hbalance
  obtain ⟨d₃, hd₃, rfl⟩ := modifyDynamicData_ok hdata
  have hsame := hfee.trans hpaid
  have hsupply : d₃.currentSupply = d.currentSupply := by
    have heq := congrFun hsame.supply op.assetToIssue.assetId
    rw [supplyOf_of_lookup hd₃, supplyOf_of_lookup hd] at heq
    exact Option.some.inj heq
  have hb₃ : s₃.bitassets.lookup op.assetToIssue.assetId = none := by
    rw [hsame.rest]
    exact hnone
  have hwithin : s₃.WithinMax op.assetToIssue.assetId (d₃.currentSupply + op.assetToIssue.amount) := by
    intro a' ha'
    rw [hsame.rest] at ha'
    change s.assets.lookup op.assetToIssue.assetId = some a' at ha'
    rw [ha] at ha'
    cases ha'
    rw [hsupply]
    exact hmax
  refine ((Postings.paid hpaid).trans
    (.single (.issue hd₃ hb₃ (.inr hwithin)))).cast ?_
  exact add_neg_cancel _

theorem AssetReserve.doEvaluate_ok {S : Settings} {op : AssetReserve} {s s₁ : Books} {m : Unit}
    (h : op.doEvaluate S s = .ok m s₁) :
    s₁ = s ∧ s.bitassets.lookup op.amountToReserve.assetId = none := by
  unfold doEvaluate at h
  rw [get_bind] at h
  obtain ⟨a, ha, h⟩ := require_bind_eq_ok.mp h
  obtain ⟨hissued, h⟩ := assert_bind_eq_ok.mp h
  obtain ⟨-, -, h⟩ := require_bind_eq_ok.mp h
  obtain ⟨-, h⟩ := assert_bind_eq_ok.mp h
  obtain ⟨d, hd, h⟩ := require_bind_eq_ok.mp h
  obtain ⟨-, rfl⟩ := assert_eq_ok.mp h
  exact ⟨rfl, Option.not_isSome_iff_eq_none.mp (Bool.eq_false_iff.mp hissued)⟩

theorem postings_assetReserve {S : Settings} {op : AssetReserve} {s s' : Books} {u : Unit}
    (hs : L.Keeps s) (hpos : 0 < op.amountToReserve.amount)
    (h : (op.evaluator S).run S skip s = .ok u s') : Postings L s 0 s' := by
  refine postings_run hs rfl rfl (fun hm => (AssetReserve.doEvaluate_ok hm).1) ?_ h
  intro f m v s₁ s₂ hevaluate hfee hs₁ happly
  obtain ⟨-, hnone⟩ := AssetReserve.doEvaluate_ok hevaluate
  obtain ⟨_, s₃, hbalance, hdata⟩ := bind_eq_ok.mp happly
  have hpaid := paid_adjustBalance hbalance
  obtain ⟨d₃, hd₃, rfl⟩ := modifyDynamicData_ok hdata
  have hsame := hfee.trans hpaid
  have hb₃ : s₃.bitassets.lookup op.amountToReserve.assetId = none := by
    rw [hsame.rest]
    exact hnone
  rw [supplied_neg]
  refine ((Postings.paid hpaid).trans
    (.single (.issue hd₃ hb₃ (.inl (by omega))))).cast ?_
  rw [Asset.vec_neg, vec_neg_amount, neg_neg]
  exact neg_add_cancel _

theorem postings_assetFundFeePool {S : Settings} {op : AssetFundFeePool} {s s' : Books} {u : Unit}
    (hs : L.Keeps s) (hpos : 0 < op.amount) (h : op.evaluator.run S skip s = .ok u s') : Postings L s 0 s' := by
  refine postings_run hs rfl rfl ?_ ?_ h
  · intro m s₁ hevaluate
    change AssetFundFeePool.doEvaluate op s = _ at hevaluate
    unfold AssetFundFeePool.doEvaluate at hevaluate
    rw [get_bind] at hevaluate
    obtain ⟨_, -, hpure⟩ := require_bind_eq_ok.mp hevaluate
    exact (pure_eq_ok.mp hpure).2.symm
  · intro f m v s₁ s₂ _ _ _ happly
    obtain ⟨_, s₃, hbalance, hdata⟩ := bind_eq_ok.mp happly
    refine ((Postings.paid (paid_adjustBalance hbalance)).trans (.paid (paid_feePool hpos.le hdata))).cast ?_
    rw [Asset.vec_neg]
    exact neg_add_cancel _

theorem postings_assetClaimFees {S : Settings} {op : AssetClaimFees} {s s' : Books} {u : Unit}
    (hs : L.Keeps s) (h : op.evaluator.run S skip s = .ok u s') : Postings L s 0 s' := by
  refine postings_run hs rfl rfl ?_ ?_ h
  · intro m s₁ hevaluate
    change AssetClaimFees.doEvaluate op s = _ at hevaluate
    unfold AssetClaimFees.doEvaluate at hevaluate
    rw [get_bind] at hevaluate
    obtain ⟨a, -, hassert⟩ := require_bind_eq_ok.mp hevaluate
    exact (assert_eq_ok.mp hassert).2
  · intro f m v s₁ s₂ _ _ _ happly
    change AssetClaimFees.doApply op s₁ = _ at happly
    unfold AssetClaimFees.doApply at happly
    rw [get_bind] at happly
    obtain ⟨d, hd, happly⟩ := require_bind_eq_ok.mp happly
    obtain ⟨hle, happly⟩ := assert_bind_eq_ok.mp happly
    obtain ⟨_, s₃, hdata, hbalance⟩ := bind_eq_ok.mp happly
    have hcollected : Paid s₁ (Asset.vec ⟨-op.amountToClaim.amount, op.amountToClaim.assetId⟩) s₃ :=
      paid_collected (fun d' hd' _ => by rw [hd] at hd'; cases hd'; omega) hdata
    refine ((Postings.paid hcollected).trans (.paid (paid_adjustBalance hbalance))).cast ?_
    rw [vec_neg_amount]
    exact neg_add_cancel _

/-! ### Creating assets -/

theorem lt_foldr_max {l : List ℕ} {k : ℕ} (h : k ∈ l) :
    k < l.foldr (fun id next => max (id + 1) next) 0 := by
  induction l with
  | nil => cases h
  | cons id l ih =>
    rw [List.foldr_cons]
    rcases List.mem_cons.mp h with rfl | h
    · exact lt_of_lt_of_le (Nat.lt_succ_self _) (le_max_left _ _)
    · exact lt_of_lt_of_le (ih h) (le_max_right _ _)

theorem Books.lookup_nextAssetId (s : Books) :
    s.assets.lookup s.nextAssetId = none ∧ s.dynamicData.lookup s.nextAssetId = none ∧
      s.bitassets.lookup s.nextAssetId = none := by
  have hnew : ∀ k ∈ s.assets.keys ++ s.dynamicData.keys ++ s.bitassets.keys, k ≠ s.nextAssetId :=
    fun k hk => (lt_foldr_max hk).ne
  refine ⟨AList.lookup_eq_none.mpr fun hmem => ?_, AList.lookup_eq_none.mpr fun hmem => ?_,
    AList.lookup_eq_none.mpr fun hmem => ?_⟩
  · exact hnew _ (List.mem_append_left _ (List.mem_append_left _ hmem)) rfl
  · exact hnew _ (List.mem_append_left _ (List.mem_append_right _ hmem)) rfl
  · exact hnew _ (List.mem_append_right _ hmem) rfl

theorem checkBackedByCore_read {owner backing : ℕ} {mustNotNest : Bool} {s s₁ : Books} {u : Unit}
    (h : checkBackedByCore owner backing mustNotNest s = .ok u s₁) : s₁ = s := by
  unfold checkBackedByCore at h
  rw [get_bind] at h
  obtain ⟨-, -, h⟩ := require_bind_eq_ok.mp h
  cases hb : s.bitassets.lookup backing with
  | none =>
    rw [hb] at h
    exact (assert_eq_ok.mp h).2
  | some b =>
    rw [hb] at h
    obtain ⟨-, -, h⟩ := require_bind_eq_ok.mp h
    obtain ⟨-, h⟩ := assert_bind_eq_ok.mp h
    exact (assert_eq_ok.mp h).2

theorem checkAuthorities_read {o : AssetOptions} {s s₁ : Books} {u : Unit}
    (h : o.checkAuthorities s = .ok u s₁) : s₁ = s := by
  unfold AssetOptions.checkAuthorities at h
  rw [get_bind] at h
  obtain ⟨-, h⟩ := assert_bind_eq_ok.mp h
  obtain ⟨-, h⟩ := assert_bind_eq_ok.mp h
  obtain ⟨-, h⟩ := assert_bind_eq_ok.mp h
  exact (assert_eq_ok.mp h).2

theorem AssetCreate.doEvaluate_read {S : Settings} {op : AssetCreate} {s s₁ : Books} {m : Unit}
    (h : op.doEvaluate S s = .ok m s₁) : s₁ = s := by
  unfold doEvaluate at h
  obtain ⟨-, -, h⟩ := bind_eq_ok_of_read checkAuthorities_read h
  rw [get_bind] at h
  obtain ⟨-, h⟩ := assert_bind_eq_ok.mp h
  cases hopts : op.bitassetOpts with
  | none =>
    rw [hopts] at h
    exact (assert_eq_ok.mp h).2
  | some opts =>
    rw [hopts] at h
    change op.checkBitasset opts s = _ at h
    unfold checkBitasset at h
    obtain ⟨-, -, h⟩ := bind_eq_ok_of_read checkBackedByCore_read h
    rw [get_bind] at h
    obtain ⟨-, h⟩ := assert_bind_eq_ok.mp h
    obtain ⟨_, -, h⟩ := require_bind_eq_ok.mp h
    exact (assert_eq_ok.mp h).2

theorem AssetOptions.validate_ok {o : AssetOptions} {s s₁ : Books} {u : Unit}
    (h : o.validate s = .ok u s₁) : s₁ = s ∧ 0 < o.maxSupply := by
  unfold validate at h
  obtain ⟨⟨hpos, -⟩, h⟩ := assert_bind_eq_ok.mp h
  obtain ⟨-, h⟩ := assert_bind_eq_ok.mp h
  obtain ⟨-, h⟩ := assert_bind_eq_ok.mp h
  obtain ⟨-, h⟩ := assert_bind_eq_ok.mp h
  obtain ⟨-, -, h⟩ := lift_bind_eq_ok.mp h
  obtain ⟨-, h⟩ := assert_bind_eq_ok.mp h
  obtain ⟨-, h⟩ := assert_bind_eq_ok.mp h
  exact ⟨(assert_eq_ok.mp h).2, hpos⟩

theorem AssetCreate.maxSupply_pos {op : AssetCreate} {s s₁ : Books} {u : Unit}
    (h : op.validate s = .ok u s₁) : s₁ = s ∧ 0 < op.commonOptions.maxSupply := by
  unfold validate at h
  obtain ⟨-, h⟩ := assert_bind_eq_ok.mp h
  obtain ⟨_, hoptions, h⟩ := bind_eq_ok_of_read (fun ho => (AssetOptions.validate_ok ho).1) h
  have hpos := (AssetOptions.validate_ok hoptions).2
  obtain ⟨-, h⟩ := assert_bind_eq_ok.mp h
  obtain ⟨-, h⟩ := assert_bind_eq_ok.mp h
  obtain ⟨_, -, h⟩ := lift_bind_eq_ok.mp h
  obtain ⟨-, h⟩ := assert_bind_eq_ok.mp h
  exact ⟨(assert_eq_ok.mp h).2, hpos⟩

/-- A bitasset starts without a settlement. -/
theorem AssetCreate.bitassets_eq (op : AssetCreate) (id : ℕ) (t : Table ℕ BitassetData) :
    op.bitassets id t = t ∨ ∃ b : BitassetData, op.bitassets id t = t.insert id b ∧
      b.hasSettlement = false ∧ b.settlementFund = 0 ∧ b.FeedsSound := by
  unfold bitassets
  split
  · next opts =>
    right
    have hratio : PriceFeed.RatioInRange PriceFeed.null.maintenanceCollateralRatio := by decide
    refine ⟨_, rfl, rfl, rfl, ⟨?_, hratio⟩⟩
    intro publisher f hf
    rw [AList.lookup_empty] at hf
    cases hf
  · exact .inl rfl

/-- What `asset_create` makes of nothing: half of the fee, rounded up, goes to the pool of the new
asset, and as much to the fees paid. -/
def AssetCreate.minted (op : AssetCreate) (prepared : ℤ) : ℤ :=
  if op.fee.assetId = core then prepared % 2 else prepared - prepared / 2

/-- Creating an asset may change the sum in core, but in no other asset. -/
theorem postings_assetCreate {S : Settings} {op : AssetCreate} {s s' : Books} {u : Unit}
    (hmax : 0 < op.commonOptions.maxSupply) (h : (op.evaluator S).run S skip s = .ok u s') :
    ∃ f, prepareFee S op.issuer op.fee s = .ok f s ∧
      Postings L s (Asset.vec ⟨op.minted f, core⟩) s' := by
  have hhalf : ∀ f : ℤ, 0 ≤ f → 0 ≤ f - f / 2 ∧ f - f / 2 ≤ f := by omega
  obtain ⟨f, m, s₂, s₃, s₄, hprepare, -, hconvert, hfee, happly, hlast⟩ :=
    Evaluator.run_paid AssetCreate.doEvaluate_read (fun f hf => (hhalf f hf).2) h
  obtain ⟨-, -, hnonneg, hcore, -⟩ := prepareFee_ok hprepare
  change op.fee.assetId = core → f = op.fee.amount at hcore
  have hpool := (hhalf f hnonneg).1
  have hpaid := hconvert.trans (paid_payFee hpool hfee)
  change op.doApply (f - f / 2) s₃ = _ at happly
  unfold AssetCreate.doApply at happly
  obtain rfl := update_eq_ok.mp happly
  obtain ⟨hassets, hdata, hbitassets⟩ := s₃.lookup_nextAssetId
  have hcreate := Postings.single (L := L) (.createAsset (a := ⟨op.issuer, op.precision,
      { op.commonOptions with coreExchangeRate := op.exchangeRate s₃.nextAssetId }, none⟩)
    hassets hdata hbitassets (op.bitassets_eq _ _) hmax.le hpool)
  have hall := ((Postings.paid hpaid).trans hcreate).trans (.paid hlast)
  change Postings L s ((if op.fee.assetId = core then 0
    else op.fee.vec - Asset.vec ⟨f - f / 2, core⟩) + Asset.vec ⟨f - f / 2, core⟩ +
      Asset.vec ⟨f - f / 2, core⟩ + -op.fee.vec) s' at hall
  refine ⟨f, hprepare, hall.cast ?_⟩
  unfold AssetCreate.minted
  split
  · next hid =>
    have hsum : f % 2 = f - f / 2 + (f - f / 2) - f := by omega
    have hfeeVec : op.fee.vec = Asset.vec ⟨f, core⟩ := by
      rw [hcore hid, ← hid]
    rw [hfeeVec, hsum]
    simp only [Asset.vec_sub, Asset.vec_add]
    abel
  · abel

/-! ### Options and feeds -/

/-- Cancelling settlements changes neither assets nor supplies. -/
theorem cancelSettlements_ok {ids : List ℕ} {s s' : Books} {u : Unit}
    (h : cancelSettlements ids s = .ok u s') :
    Postings L s 0 s' ∧ s'.assets = s.assets ∧
      supplyOf s'.dynamicData = supplyOf s.dynamicData := by
  induction ids generalizing s with
  | nil =>
    obtain ⟨-, rfl⟩ := pure_eq_ok.mp h
    exact ⟨.refl s, rfl, rfl⟩
  | cons id ids ih =>
    obtain ⟨_, s₁, hcancel, h⟩ := bind_eq_ok.mp h
    obtain ⟨hrest, hassets, hsupply⟩ := ih h
    refine ⟨((postings_cancelSettlement hcancel).trans hrest).cast (add_zero 0), ?_, ?_⟩
    all_goals
      unfold cancelSettlement at hcancel
      rw [get_bind] at hcancel
      obtain ⟨o, -, hcancel⟩ := require_bind_eq_ok.mp hcancel
      obtain ⟨_, s₂, hrefund, hcancel⟩ := bind_eq_ok.mp hcancel
      obtain rfl := update_eq_ok.mp hcancel
      have hpaid := paid_adjustBalance hrefund
    · rw [hassets]
      change s₂.assets = s.assets
      rw [hpaid.rest]
    · rw [hsupply]
      exact hpaid.supply

theorem AssetUpdate.checkNewIssuer_read {op : AssetUpdate} {issuer : Option ℕ} {s s₁ : Books}
    {u : Unit} (h : op.checkNewIssuer issuer s = .ok u s₁) : s₁ = s := by
  cases issuer with
  | none => exact (pure_eq_ok.mp h).2.symm
  | some issuer =>
    simp only [checkNewIssuer] at h
    rw [get_bind] at h
    obtain ⟨-, -, h⟩ := require_bind_eq_ok.mp h
    cases hb : s.bitassets.lookup op.assetToUpdate with
    | none =>
      rw [hb] at h
      exact (pure_eq_ok.mp h).2.symm
    | some b =>
      rw [hb] at h
      change (if issuer = committee then checkBackedByCore issuer b.shortBackingAsset false
        else pure ()) s = _ at h
      split at h
      · exact checkBackedByCore_read h
      · exact (pure_eq_ok.mp h).2.symm

theorem AssetUpdate.doEvaluate_ok {op : AssetUpdate} {s s₁ : Books} {a : AssetObject}
    (h : op.doEvaluate s = .ok a s₁) : s₁ = s ∧ s.assets.lookup op.assetToUpdate = some a := by
  unfold doEvaluate at h
  rw [get_bind] at h
  obtain ⟨a', ha, h⟩ := require_bind_eq_ok.mp h
  obtain ⟨-, h⟩ := assert_bind_eq_ok.mp h
  obtain ⟨-, -, h⟩ := bind_eq_ok_of_read checkNewIssuer_read h
  obtain ⟨d, -, h⟩ := require_bind_eq_ok.mp h
  obtain ⟨-, h⟩ := assert_bind_eq_ok.mp h
  obtain ⟨-, h⟩ := assert_bind_eq_ok.mp h
  obtain ⟨-, h⟩ := assert_bind_eq_ok.mp h
  obtain ⟨-, -, h⟩ := bind_eq_ok_of_read checkAuthorities_read h
  obtain ⟨rfl, rfl⟩ := pure_eq_ok.mp h
  exact ⟨rfl, ha⟩

theorem postings_assetUpdate {S : Settings} {op : AssetUpdate} {s s' : Books} {u : Unit}
    (hs : L.Keeps s)
    (hmax : ¬ L.excess → ∀ supply, supplyOf s.dynamicData op.assetToUpdate = some supply →
      supply ≤ op.newOptions.maxSupply)
    (h : op.evaluator.run S skip s = .ok u s') : Postings L s 0 s' := by
  refine postings_run hs rfl rfl (fun hm => (AssetUpdate.doEvaluate_ok hm).1) ?_ h
  intro f a v s₁ s₂ hevaluate hfee hs₁ happly
  obtain ⟨-, ha⟩ := AssetUpdate.doEvaluate_ok hevaluate
  obtain ⟨_, s₃, hcancel, hset⟩ := bind_eq_ok.mp happly
  obtain rfl := update_eq_ok.mp hset
  have hcancelled : Postings L s₁ 0 s₃ ∧ s₃.assets = s₁.assets ∧
      supplyOf s₃.dynamicData = supplyOf s₁.dynamicData := by
    unfold AssetUpdate.cancelIfDisabled at hcancel
    rw [get_bind] at hcancel
    split at hcancel
    · exact cancelSettlements_ok hcancel
    · obtain ⟨-, rfl⟩ := pure_eq_ok.mp hcancel
      exact ⟨.refl s₁, rfl, rfl⟩
  obtain ⟨hpostings, hassets, hsupply⟩ := hcancelled
  have ha₃ : s₃.assets.lookup op.assetToUpdate = some a := by
    rw [hassets, hfee.rest]
    exact ha
  refine (hpostings.trans (.single (.setAsset ha₃ ?_))).cast (add_zero 0)
  intro hL
  right
  intro supply hsupply'
  rw [hsupply, hfee.supply] at hsupply'
  exact hmax hL supply hsupply'

theorem BitassetData.updateMedianFeeds_same (b : BitassetData) (now : ℕ) :
    (b.updateMedianFeeds now).settlementPrice = b.settlementPrice ∧
      (b.updateMedianFeeds now).settlementFund = b.settlementFund ∧
      (b.updateMedianFeeds now).shortBackingAsset = b.shortBackingAsset := by
  unfold updateMedianFeeds
  simp only
  split
  · exact ⟨rfl, rfl, rfl⟩
  · exact ⟨rfl, rfl, rfl⟩

/-- The median is one of the values, if there is any. -/
theorem PriceFeed.median_mem {β : Type} {less : β → β → Bool} {values : List β} {default : β}
    {P : β → Prop} (hdefault : P default) (hvalues : ∀ x ∈ values, P x) :
    P (median less values default) := by
  unfold median
  rw [List.getD_eq_getElem?_getD]
  cases hget : (values.insertionSort fun a b => less b a = false)[values.length / 2]? with
  | none => exact hdefault
  | some x =>
    refine hvalues x ?_
    exact List.mem_insertionSort _ |>.mp (List.mem_of_getElem? hget)

/-- The median of sound feeds is sound. -/
theorem BitassetData.feedsSound_updateMedianFeeds {b : BitassetData} (now : ℕ)
    (h : ∀ publisher f, b.feeds.lookup publisher = some f →
      PriceFeed.RatioInRange f.2.maintenanceCollateralRatio) :
    (b.updateMedianFeeds now).FeedsSound := by
  have hcurrent : ∀ f ∈ (b.currentFeeds now).map Prod.snd,
      PriceFeed.RatioInRange f.maintenanceCollateralRatio := by
    intro f hf
    obtain ⟨e, he, rfl⟩ := List.mem_map.mp hf
    unfold currentFeeds at he
    obtain ⟨e', he', rfl⟩ := List.mem_map.mp (List.mem_of_mem_filter he)
    exact h e'.1 e'.2 (Table.lookup_of_mem_entries he')
  have hmedian : PriceFeed.RatioInRange
      (medianFeed ((b.currentFeeds now).map Prod.snd)).maintenanceCollateralRatio := by
    generalize (b.currentFeeds now).map Prod.snd = feeds at hcurrent
    unfold medianFeed
    split
    · next f => exact hcurrent f List.mem_cons_self
    · unfold PriceFeed.medians
      refine PriceFeed.median_mem (by decide) ?_
      intro ratio hratio
      obtain ⟨f, hf, rfl⟩ := List.mem_map.mp hratio
      exact hcurrent f hf
  have hnull : PriceFeed.RatioInRange PriceFeed.null.maintenanceCollateralRatio := by decide
  unfold updateMedianFeeds
  simp only
  split
  · exact ⟨h, hnull⟩
  · exact ⟨h, hmedian⟩

/-- What `asset_update_bitasset` has found. -/
theorem AssetUpdateBitasset.doEvaluate_ok {op : AssetUpdateBitasset} {s s₁ : Books}
    {b : BitassetData} (h : op.doEvaluate s = .ok b s₁) :
    s₁ = s ∧ s.bitassets.lookup op.assetToUpdate = some b ∧ b.hasSettlement = false ∧
      (op.newOptions.shortBackingAsset = b.shortBackingAsset ∨
        supplyOf s.dynamicData op.assetToUpdate = some 0) := by
  unfold doEvaluate at h
  rw [get_bind] at h
  obtain ⟨a, -, h⟩ := require_bind_eq_ok.mp h
  obtain ⟨b', hb, h⟩ := require_bind_eq_ok.mp h
  obtain ⟨hunsettled, h⟩ := assert_bind_eq_ok.mp h
  have hbacking : ∀ {u s₂}, op.checkBacking a b' s = .ok u s₂ → s₂ = s ∧
      (op.newOptions.shortBackingAsset = b'.shortBackingAsset ∨
        supplyOf s.dynamicData op.assetToUpdate = some 0) := by
    intro u s₂ hcheck
    unfold checkBacking at hcheck
    split at hcheck
    · next hsame => exact ⟨(pure_eq_ok.mp hcheck).2.symm, .inl hsame⟩
    rw [get_bind] at hcheck
    obtain ⟨d, hd, hcheck⟩ := require_bind_eq_ok.mp hcheck
    obtain ⟨hzero, hcheck⟩ := assert_bind_eq_ok.mp hcheck
    obtain ⟨-, -, hcheck⟩ := require_bind_eq_ok.mp hcheck
    have hsupply : supplyOf s.dynamicData op.assetToUpdate = some 0 := by
      rw [supplyOf_of_lookup hd, hzero]
    split at hcheck
    · exact ⟨checkBackedByCore_read hcheck, .inr hsupply⟩
    · exact ⟨(pure_eq_ok.mp hcheck).2.symm, .inr hsupply⟩
  obtain ⟨_, hcheck, h⟩ := bind_eq_ok_of_read (fun hc => (hbacking hc).1) h
  obtain ⟨-, h⟩ := assert_bind_eq_ok.mp h
  obtain ⟨rfl, rfl⟩ := pure_eq_ok.mp h
  exact ⟨rfl, hb, hunsettled, (hbacking hcheck).2⟩

theorem AssetUpdateBitasset.change_same (op : AssetUpdateBitasset) (now : ℕ) (b : BitassetData) :
    (op.change now b).settlementPrice = b.settlementPrice ∧
      (op.change now b).settlementFund = b.settlementFund ∧
      (op.change now b).shortBackingAsset = op.newOptions.shortBackingAsset := by
  unfold change
  split
  · exact BitassetData.updateMedianFeeds_same _ _
  · exact ⟨rfl, rfl, rfl⟩

theorem postings_assetUpdateBitasset {S : Settings} {op : AssetUpdateBitasset} {s s' : Books}
    {u : Unit} (hs : L.Keeps s) (h : op.evaluator.run S skip s = .ok u s') : Postings L s 0 s' := by
  refine postings_run hs rfl rfl (fun hm => (AssetUpdateBitasset.doEvaluate_ok hm).1) ?_ h
  intro f b v s₁ s₂ hevaluate hfee hs₁ happly
  obtain ⟨-, hb, hunsettled, hbacking⟩ := AssetUpdateBitasset.doEvaluate_ok hevaluate
  change op.doApply s₁ = _ at happly
  unfold AssetUpdateBitasset.doApply at happly
  rw [get_bind] at happly
  obtain rfl := update_eq_ok.mp happly
  obtain ⟨hprice, hfund, hnew⟩ := op.change_same s₁.headTime b
  have hb₁ : s₁.bitassets.lookup op.assetToUpdate = some b := by
    rw [hfee.rest]
    exact hb
  refine .single (.setBitasset hb₁ hprice hfund ?_ ?_)
  · intro hfeeds
    unfold AssetUpdateBitasset.change
    split
    · exact BitassetData.feedsSound_updateMedianFeeds _ hfeeds.feeds
    · exact ⟨hfeeds.feeds, hfeeds.current⟩
  · rcases hbacking with hsame | hzero
    · exact .inl (hnew.trans hsame)
    · refine .inr ⟨hunsettled, ?_⟩
      rw [hfee.supply]
      exact hzero

/-- A change of the feeds of a bitasset. -/
theorem postings_feeds (now : ℕ) {k : ℕ} {b : BitassetData}
    {g : Table ℕ (ℕ × PriceFeed) → Table ℕ (ℕ × PriceFeed)} {s : Books}
    (hb : s.bitassets.lookup k = some b)
    (hg : (∀ publisher f, b.feeds.lookup publisher = some f →
        PriceFeed.RatioInRange f.2.maintenanceCollateralRatio) →
      ∀ publisher f, (g b.feeds).lookup publisher = some f →
        PriceFeed.RatioInRange f.2.maintenanceCollateralRatio) :
    Postings L s 0 { s with bitassets := s.bitassets.modify k fun b =>
      BitassetData.updateMedianFeeds { b with feeds := g b.feeds } now } := by
  obtain ⟨hprice, hfund, hbacking⟩ :=
    BitassetData.updateMedianFeeds_same { b with feeds := g b.feeds } now
  refine .single (.setBitasset hb hprice hfund ?_ (.inl hbacking))
  exact fun hfeeds => BitassetData.feedsSound_updateMedianFeeds _ (hg hfeeds.feeds)

/-- What holds of the feeds that were there, and of a feed that was not published, holds of the
feeds of the new producers. -/
theorem AssetUpdateFeedProducers.newFeeds_forall {op : AssetUpdateFeedProducers}
    {feeds : Table ℕ (ℕ × PriceFeed)} {P : ℕ × PriceFeed → Prop} (hnew : P (0, .null))
    (h : ∀ publisher f, feeds.lookup publisher = some f → P f) :
    ∀ publisher f, (op.newFeeds feeds).lookup publisher = some f → P f := by
  unfold newFeeds
  have hfold : ∀ (producers : List ℕ) (t : Table ℕ (ℕ × PriceFeed)),
      (∀ publisher f, t.lookup publisher = some f → P f) →
      ∀ publisher f, (producers.foldl
        (fun t id => t.insert id ((feeds.lookup id).getD (0, .null))) t).lookup publisher = some f →
        P f := by
    intro producers
    induction producers with
    | nil => exact fun t ht => ht
    | cons id producers ih =>
      intro t ht
      refine ih _ ?_
      intro publisher f hf
      by_cases hid : publisher = id
      · rw [hid, AList.lookup_insert] at hf
        cases hf
        cases hlookup : feeds.lookup id with
        | none =>
          rw [Option.getD_none]
          exact hnew
        | some f => exact h id f hlookup
      · rw [AList.lookup_insert_ne hid] at hf
        exact ht publisher f hf
  refine hfold op.newFeedProducers ∅ ?_
  intro publisher f hf
  rw [AList.lookup_empty] at hf
  cases hf

theorem AssetUpdateFeedProducers.newFeeds_sound {op : AssetUpdateFeedProducers}
    {feeds : Table ℕ (ℕ × PriceFeed)}
    (h : ∀ publisher f, feeds.lookup publisher = some f →
      PriceFeed.RatioInRange f.2.maintenanceCollateralRatio) :
    ∀ publisher f, (op.newFeeds feeds).lookup publisher = some f →
      PriceFeed.RatioInRange f.2.maintenanceCollateralRatio :=
  newFeeds_forall (P := fun f => PriceFeed.RatioInRange f.2.maintenanceCollateralRatio) (by decide) h

theorem AssetUpdateFeedProducers.doEvaluate_ok {op : AssetUpdateFeedProducers} {s s₁ : Books}
    {m : Unit} (h : op.doEvaluate s = .ok m s₁) :
    s₁ = s ∧ ∃ b, s.bitassets.lookup op.assetToUpdate = some b := by
  unfold doEvaluate at h
  rw [get_bind] at h
  obtain ⟨-, h⟩ := assert_bind_eq_ok.mp h
  obtain ⟨-, h⟩ := assert_bind_eq_ok.mp h
  obtain ⟨a, -, h⟩ := require_bind_eq_ok.mp h
  obtain ⟨b, hb, h⟩ := require_bind_eq_ok.mp h
  obtain ⟨-, h⟩ := assert_bind_eq_ok.mp h
  obtain ⟨-, h⟩ := assert_bind_eq_ok.mp h
  exact ⟨(assert_eq_ok.mp h).2, b, hb⟩

theorem postings_assetUpdateFeedProducers {S : Settings} {op : AssetUpdateFeedProducers}
    {s s' : Books} {u : Unit} (hs : L.Keeps s) (h : op.evaluator.run S skip s = .ok u s') :
    Postings L s 0 s' := by
  refine postings_run hs rfl rfl (fun hm => (AssetUpdateFeedProducers.doEvaluate_ok hm).1) ?_ h
  intro f m v s₁ s₂ hevaluate hfee hs₁ happly
  obtain ⟨-, b, hb⟩ := AssetUpdateFeedProducers.doEvaluate_ok hevaluate
  have hb₁ : s₁.bitassets.lookup op.assetToUpdate = some b := by
    rw [hfee.rest]
    exact hb
  change op.doApply s₁ = _ at happly
  unfold AssetUpdateFeedProducers.doApply at happly
  rw [get_bind] at happly
  obtain ⟨_, s₃, hset, happly⟩ := bind_eq_ok.mp happly
  obtain rfl := update_eq_ok.mp hset
  obtain ⟨_, s₄, hcalls, happly⟩ := bind_eq_ok.mp happly
  obtain ⟨-, rfl⟩ := pure_eq_ok.mp happly
  have hfeeds := postings_feeds (L := L) s₁.headTime hb₁ op.newFeeds_sound
  exact (hfeeds.trans (postings_checkCallOrders (hfeeds.keeps hs₁) hcalls)).cast (add_zero 0)

theorem PriceFeed.validate_ok {f : PriceFeed} (h : f.validate = .ok ()) :
    RatioInRange f.maintenanceCollateralRatio := by
  unfold validate at h
  obtain ⟨-, -, h⟩ := except_bind_eq_ok.mp h
  obtain ⟨-, h⟩ := check_bind_eq_ok.mp h
  exact (check_bind_eq_ok.mp h).1

theorem AssetPublishFeed.validate_ok {op : AssetPublishFeed} {s s₁ : Books} {u : Unit}
    (h : op.validate s = .ok u s₁) :
    s₁ = s ∧ PriceFeed.RatioInRange op.feed.maintenanceCollateralRatio := by
  unfold validate at h
  obtain ⟨-, h⟩ := assert_bind_eq_ok.mp h
  obtain ⟨_, hfeed, h⟩ := lift_bind_eq_ok.mp h
  obtain ⟨-, -, h⟩ := lift_bind_eq_ok.mp h
  obtain ⟨-, h⟩ := assert_bind_eq_ok.mp h
  obtain ⟨-, h⟩ := assert_bind_eq_ok.mp h
  obtain ⟨-, h⟩ := assert_bind_eq_ok.mp h
  exact ⟨(assert_eq_ok.mp h).2, PriceFeed.validate_ok hfeed⟩

theorem AssetPublishFeed.doEvaluate_read {S : Settings} {op : AssetPublishFeed} {s s₁ : Books}
    {m : Unit} (h : op.doEvaluate S s = .ok m s₁) : s₁ = s := by
  unfold doEvaluate at h
  rw [get_bind] at h
  obtain ⟨a, -, h⟩ := require_bind_eq_ok.mp h
  obtain ⟨b, -, h⟩ := require_bind_eq_ok.mp h
  obtain ⟨-, h⟩ := assert_bind_eq_ok.mp h
  obtain ⟨-, h⟩ := assert_bind_eq_ok.mp h
  obtain ⟨-, h⟩ := assert_bind_eq_ok.mp h
  exact (assert_eq_ok.mp h).2

theorem postings_assetPublishFeed {S : Settings} {op : AssetPublishFeed} {s s' : Books} {u : Unit}
    (hs : L.Keeps s) (hratio : PriceFeed.RatioInRange op.feed.maintenanceCollateralRatio)
    (h : (op.evaluator S).run S skip s = .ok u s') : Postings L s 0 s' := by
  refine postings_run hs rfl rfl AssetPublishFeed.doEvaluate_read ?_ h
  intro f m v s₁ s₂ _ _ hs₁ happly
  change op.doApply s₁ = _ at happly
  unfold AssetPublishFeed.doApply at happly
  rw [get_bind] at happly
  obtain ⟨b, hb, happly⟩ := require_bind_eq_ok.mp happly
  obtain ⟨_, s₃, hset, happly⟩ := bind_eq_ok.mp happly
  obtain rfl := update_eq_ok.mp hset
  have hfeeds := postings_feeds (L := L) s₁.headTime
    (g := fun feeds => feeds.insert op.publisher (s₁.headTime, op.feed)) hb (by
      intro hold publisher feed hfeed
      by_cases hid : publisher = op.publisher
      · rw [hid, AList.lookup_insert] at hfeed
        cases hfeed
        exact hratio
      · rw [AList.lookup_insert_ne hid] at hfeed
        exact hold publisher feed hfeed)
  unfold AssetPublishFeed.callIfChanged at happly
  rw [get_bind] at happly
  obtain ⟨b', -, happly⟩ := require_bind_eq_ok.mp happly
  split at happly
  · obtain ⟨-, rfl⟩ := pure_eq_ok.mp happly
    exact hfeeds
  · obtain ⟨_, s₄, hcalls, happly⟩ := bind_eq_ok.mp happly
    obtain ⟨-, rfl⟩ := pure_eq_ok.mp happly
    exact (hfeeds.trans (postings_checkCallOrders (hfeeds.keeps hs₁) hcalls)).cast (add_zero 0)

theorem postings_followRate {k : ℕ} {s s' : Books} {u : Unit} (h : followRate k s = .ok u s') :
    Postings L s 0 s' := by
  unfold followRate at h
  rw [get_bind] at h
  obtain ⟨b, -, h⟩ := require_bind_eq_ok.mp h
  obtain ⟨a, ha, h⟩ := require_bind_eq_ok.mp h
  split at h
  · obtain rfl := update_eq_ok.mp h
    exact .single (.setAsset ha fun _ => .inl le_rfl)
  · obtain ⟨-, rfl⟩ := pure_eq_ok.mp h
    exact .refl s

theorem postings_expireFeed {k : ℕ} {expired : Bool} {b : BitassetData} {s s' : Books} {u : Unit}
    (hs : L.Keeps s) (hb : s.bitassets.lookup k = some b) (h : expireFeed k expired s = .ok u s') :
    Postings L s 0 s' := by
  unfold expireFeed at h
  split at h
  · rw [get_bind] at h
    obtain ⟨_, s₁, hset, h⟩ := bind_eq_ok.mp h
    obtain rfl := update_eq_ok.mp hset
    have hfeeds := postings_feeds (L := L) s.headTime (g := id) hb id
    rw [get_bind] at h
    obtain ⟨b', -, h⟩ := require_bind_eq_ok.mp h
    obtain ⟨-, -, h⟩ := require_bind_eq_ok.mp h
    obtain ⟨_, s₂, hcalls, h⟩ := bind_eq_ok.mp h
    obtain ⟨-, rfl⟩ := pure_eq_ok.mp h
    exact (hfeeds.trans (postings_checkCallOrders (hfeeds.keeps hs) hcalls)).cast (add_zero 0)
  · obtain ⟨-, rfl⟩ := pure_eq_ok.mp h
    exact .refl s

theorem postings_updateExpiredFeeds {s s' : Books} {u : Unit} (hs : L.Keeps s)
    (h : updateExpiredFeeds s = .ok u s') : Postings L s 0 s' := by
  unfold updateExpiredFeeds at h
  rw [get_bind] at h
  generalize s.bitassets.keys.insertionSort (· ≤ ·) = ids at h
  induction ids generalizing s with
  | nil =>
    obtain ⟨-, rfl⟩ := pure_eq_ok.mp h
    exact .refl s
  | cons k ids ih =>
    unfold updateFeedsOf at h
    rw [get_bind] at h
    obtain ⟨b, hb, h⟩ := require_bind_eq_ok.mp h
    obtain ⟨_, s₁, hexpire, h⟩ := bind_eq_ok.mp h
    obtain ⟨_, s₂, hfollow, h⟩ := bind_eq_ok.mp h
    have hfirst := ((postings_expireFeed hs hb hexpire).trans
      (postings_followRate hfollow)).cast (add_zero 0)
    exact (hfirst.trans (ih (hfirst.keeps hs) h)).cast (add_zero 0)

end FinChain.Ledger
