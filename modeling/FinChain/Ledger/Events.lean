import FinChain.Ledger.LockPostings
import FinChain.Ledger.MaintenanceSafety

/-!
# Runs of the chain

The books change by operations, which are validated, evaluated and applied, and by what the chain
does in every block: it clears the orders that have expired, updates the feeds that have expired,
and holds a maintenance when it is time. A run is a sequence of such events (`Steps`). An event
whose amounts do not fit their type `share_type` throws in the source, where the amounts are
integers of 64 bits that check their arithmetic; so the books of a run fit (`Books.Fits`).

The chain has operations that are not modelled, on accounts, witnesses, proposals and vesting
balances. They take part in a run as steps that leave the market alone (`Beside`).

An event is a path of postings and of steps beside the market (`Path`), so an invariant of these two
is an invariant of the chain. With `Genesis`, what the books are at first, this gives what holds of
them in every reachable state (`Reachable.regular`).
-/

namespace FinChain.Ledger

open Exec

/-! ### Operations and events -/

/-- The operations of this model. -/
inductive Operation
  | transfer (op : Transfer)
  | limitOrderCreate (op : LimitOrderCreate)
  | limitOrderCancel (op : LimitOrderCancel)
  | callOrderUpdate (op : CallOrderUpdate)
  | assetCreate (op : AssetCreate)
  | assetUpdate (op : AssetUpdate)
  | assetUpdateBitasset (op : AssetUpdateBitasset)
  | assetUpdateFeedProducers (op : AssetUpdateFeedProducers)
  | assetIssue (op : AssetIssue)
  | assetReserve (op : AssetReserve)
  | assetFundFeePool (op : AssetFundFeePool)
  | assetSettle (op : AssetSettle)
  | assetGlobalSettle (op : AssetGlobalSettle)
  | assetPublishFeed (op : AssetPublishFeed)
  | assetClaimFees (op : AssetClaimFees)
  | lock (op : LockOperation)

/-- `validate`, then evaluation and application. -/
def Operation.run (S : Settings) : Operation → LedgerM Unit
  | transfer op => do
    op.validate
    (op.evaluator S).run S false
  | limitOrderCreate op => do
    op.validate
    (op.evaluator S).run S false
  | limitOrderCancel op => do
    op.validate
    op.evaluator.run S false
  | callOrderUpdate op => do
    op.validate
    op.evaluator.run S false
  | assetCreate op => do
    op.validate
    (op.evaluator S).run S false
  | assetUpdate op => do
    op.validate
    op.evaluator.run S false
  | assetUpdateBitasset op => do
    op.validate
    op.evaluator.run S false
  | assetUpdateFeedProducers op => do
    op.validate
    op.evaluator.run S false
  | assetIssue op => do
    op.validate
    (op.evaluator S).run S false
  | assetReserve op => do
    op.validate
    (op.evaluator S).run S false
  | assetFundFeePool op => do
    op.validate
    op.evaluator.run S false
  | assetSettle op => do
    op.validate
    op.evaluator.run S false
  | assetGlobalSettle op => do
    op.validate
    op.evaluator.run S false
  | assetPublishFeed op => do
    op.validate
    (op.evaluator S).run S false
  | assetClaimFees op => do
    op.validate
    op.evaluator.run S false
  | lock op => op.run S

/-- What happens to the books. -/
inductive Event
  | operation (op : Operation)
  /-- A block with another time. -/
  | block (time : ℕ)
  | clearExpiredOrders
  | updateExpiredFeeds
  | maintenance (accounts : List ℕ) (parameters : ChainParameters) (firstBlock : Bool)

def Event.run (S : Settings) : Event → LedgerM Unit
  | operation op => op.run S
  | block time => update fun s => { s with headTime := time }
  | clearExpiredOrders => Ledger.clearExpiredOrders S
  | updateExpiredFeeds => Ledger.updateExpiredFeeds
  | maintenance accounts parameters firstBlock =>
    performChainMaintenance S accounts parameters firstBlock

/-- A run of accepted events, each of which meets the condition `C`, and of steps as `B` allows
them. -/
inductive Steps (S : Settings) (C : Books → Event → Prop) (B : Books → Books → Prop) :
    Books → Books → Prop
  | refl (s : Books) : Steps S C B s s
  | event {s s₁ s₂ : Books} {e : Event} (hs : Steps S C B s s₁) (hC : C s₁ e)
      (h : e.run S s₁ = .ok () s₂) (hfits : s₂.Fits) : Steps S C B s s₂
  | beside {s s₁ s₂ : Books} (hs : Steps S C B s s₁) (h : B s₁ s₂) (hfits : s₂.Fits) :
      Steps S C B s s₂

/-- No FBA accumulator is negative. -/
def FbasNonneg (t : Table ℕ FbaAccumulator) : Prop :=
  ∀ id f, t.lookup id = some f → 0 ≤ f.accumulatedFbaFees

/-- An operation that is not modelled: it leaves orders and bitassets alone. -/
structure Beside (s s' : Books) : Prop extends Aside s s' where
  fbas : FbasNonneg s.fbas → FbasNonneg s'.fbas

/-! ### Paths -/

/-- Postings, and steps beside the market. -/
inductive Path (L : Licence) : Books → Books → Prop
  | refl (s : Books) : Path L s s
  | posting {s s₁ s' : Books} {v : ℕ → ℤ} (h : Posting L s v s₁) (hs : Path L s₁ s') : Path L s s'
  | beside {s s₁ s' : Books} (h : Beside s s₁) (hs : Path L s₁ s') : Path L s s'

namespace Path

variable {L : Licence} {s s₁ s' : Books}

theorem trans (h : Path L s s₁) (h' : Path L s₁ s') : Path L s s' := by
  induction h with
  | refl => exact h'
  | posting hfirst _ ih => exact posting hfirst (ih h')
  | beside hfirst _ ih => exact beside hfirst (ih h')

theorem of_postings {v : ℕ → ℤ} (h : Postings L s v s') : Path L s s' := by
  induction h with
  | refl s => exact refl s
  | step hfirst _ ih => exact posting hfirst ih

theorem of_beside (h : Beside s s') : Path L s s' := beside h (refl s')

/-- The rule for invariants. -/
theorem keep {I : Books → Prop} (hposting : ∀ {s v s'}, Posting L s v s' → I s → I s')
    (hbeside : ∀ {s s'}, Beside s s' → I s → I s') (h : Path L s s') (hs : I s) : I s' := by
  induction h with
  | refl => exact hs
  | posting hfirst _ ih => exact ih (hposting hfirst hs)
  | beside hfirst _ ih => exact ih (hbeside hfirst hs)

end Path

theorem Beside.regular {s s' : Books} (h : Beside s s') (hs : Regular s) : Regular s' :=
  { hs.toSound.of_aside h.toAside, hs.toCoreIssued.of_aside h.toAside with
    fbas := h.fbas hs.fbas }

theorem Path.regular {L : Licence} {s s' : Books} (h : Path L s s') (hs : Regular s) : Regular s' :=
  h.keep (fun hposting => (Postings.single hposting).regular) Beside.regular hs

/-! ### Events are paths -/

/-- What an operation may need a licence for. -/
def Operation.Licensed (L : Licence) (s : Books) : Operation → Prop
  | limitOrderCreate _ => L.orders
  | assetSettle op => ∀ b, s.bitassets.lookup op.amount.assetId = some b → b.hasSettlement = true →
      L.redemptions op.amount.assetId
  | assetUpdate op => ¬ L.excess → ∀ supply, supplyOf s.dynamicData op.assetToUpdate = some supply →
      supply ≤ op.newOptions.maxSupply
  | callOrderUpdate op => ¬ L.excess → ∀ supply,
      supplyOf s.dynamicData op.deltaDebt.assetId = some supply →
      s.WithinMax op.deltaDebt.assetId (supply + op.deltaDebt.amount)
  | _ => True

/-- What an operation creates out of nothing. -/
def Operation.Mints (S : Settings) (s : Books) (op : Operation) (v : ℕ → ℤ) : Prop :=
  match op with
  | assetCreate op => ∃ f, prepareFee S op.issuer op.fee s = .ok f s ∧ v = Asset.vec ⟨op.minted f, core⟩
  | _ => v = 0

theorem AssetUpdate.validate_read {op : AssetUpdate} {s s₁ : Books} {u : Unit}
    (h : op.validate s = .ok u s₁) : s₁ = s := by
  unfold validate at h
  obtain ⟨-, h⟩ := assert_bind_eq_ok.mp h
  obtain ⟨-, h⟩ := assert_bind_eq_ok.mp h
  obtain ⟨_, -, h⟩ := bind_eq_ok_of_read (fun ho => (AssetOptions.validate_ok ho).1) h
  obtain ⟨dummy, -, h⟩ := lift_bind_eq_ok.mp h
  exact (assert_eq_ok.mp h).2

/-- **What an operation on the market or on assets does**, as postings. -/
theorem Operation.postings {L : Licence} {S : Settings} {op : Operation} {s s' : Books} {u : Unit}
    (hs : L.Keeps s) (hfits : s.Fits) (hL : op.Licensed L s) (hlock : ∀ o, op ≠ .lock o)
    (h : op.run S s = .ok u s') : ∃ v, op.Mints S s v ∧ Postings L s v s' := by
  cases op with
  | transfer op =>
    obtain ⟨-, h⟩ := assert_bind_eq_ok.mp h
    exact ⟨0, rfl, postings_transfer hs h⟩
  | limitOrderCreate op =>
    obtain ⟨⟨hne, -, hsell, hreceive⟩, h⟩ := assert_bind_eq_ok.mp h
    exact ⟨0, rfl, postings_limitOrderCreate hs hL hne hsell hreceive h⟩
  | limitOrderCancel op =>
    obtain ⟨-, h⟩ := assert_bind_eq_ok.mp h
    exact ⟨0, rfl, postings_limitOrderCancel hs h⟩
  | callOrderUpdate op =>
    obtain ⟨-, h⟩ := assert_bind_eq_ok.mp h
    exact ⟨0, rfl, postings_callOrderUpdate hs hfits hL h⟩
  | assetCreate op =>
    obtain ⟨_, hvalidate, h⟩ := bind_eq_ok_of_read (fun hv => (AssetCreate.maxSupply_pos hv).1) h
    have hmax := (AssetCreate.maxSupply_pos hvalidate).2
    obtain ⟨f, hf, hpostings⟩ := postings_assetCreate (L := L) hmax h
    exact ⟨_, ⟨f, hf, rfl⟩, hpostings⟩
  | assetUpdate op =>
    obtain ⟨_, -, h⟩ := bind_eq_ok_of_read AssetUpdate.validate_read h
    exact ⟨0, rfl, postings_assetUpdate hs hL h⟩
  | assetUpdateBitasset op =>
    obtain ⟨-, h⟩ := assert_bind_eq_ok.mp h
    exact ⟨0, rfl, postings_assetUpdateBitasset hs h⟩
  | assetUpdateFeedProducers op =>
    obtain ⟨-, h⟩ := assert_bind_eq_ok.mp h
    exact ⟨0, rfl, postings_assetUpdateFeedProducers hs h⟩
  | assetIssue op =>
    obtain ⟨-, h⟩ := assert_bind_eq_ok.mp h
    exact ⟨0, rfl, postings_assetIssue hs h⟩
  | assetReserve op =>
    obtain ⟨⟨-, -, hpos⟩, h⟩ := assert_bind_eq_ok.mp h
    exact ⟨0, rfl, postings_assetReserve hs hpos h⟩
  | assetFundFeePool op =>
    obtain ⟨⟨-, -, hpos⟩, h⟩ := assert_bind_eq_ok.mp h
    exact ⟨0, rfl, postings_assetFundFeePool hs hpos h⟩
  | assetSettle op =>
    obtain ⟨⟨-, hamount⟩, h⟩ := assert_bind_eq_ok.mp h
    exact ⟨0, rfl, postings_assetSettle hs hfits hamount hL h⟩
  | assetGlobalSettle op =>
    obtain ⟨-, h⟩ := assert_bind_eq_ok.mp h
    exact ⟨0, rfl, postings_assetGlobalSettle hs h⟩
  | assetPublishFeed op =>
    obtain ⟨_, hvalidate, h⟩ := bind_eq_ok_of_read (fun hv => (AssetPublishFeed.validate_ok hv).1) h
    exact ⟨0, rfl, postings_assetPublishFeed hs (AssetPublishFeed.validate_ok hvalidate).2 h⟩
  | assetClaimFees op =>
    obtain ⟨-, h⟩ := assert_bind_eq_ok.mp h
    exact ⟨0, rfl, postings_assetClaimFees hs h⟩
  | lock op => exact absurd rfl (hlock op)

theorem LockOperation.beside_run {S : Settings} {op : LockOperation} {s s' : Books} {u : Unit}
    (h : op.run S s = .ok u s') : Beside s s' where
  toAside := aside_run h
  fbas := by
    obtain ⟨s₁, s₂, hfee, hstep, -, hlast⟩ := lockStep_run h
    rw [hlast.rest, hstep.rest, hfee.rest]
    exact id

theorem Operation.path {L : Licence} {S : Settings} {op : Operation} {s s' : Books} {u : Unit}
    (hs : L.Keeps s) (hfits : s.Fits) (hL : op.Licensed L s) (h : op.run S s = .ok u s') :
    Path L s s' := by
  by_cases hlock : ∃ o, op = .lock o
  · obtain ⟨o, rfl⟩ := hlock
    exact .of_beside (LockOperation.beside_run h)
  · obtain ⟨v, -, hpostings⟩ := Operation.postings hs hfits hL (fun o ho => hlock ⟨o, ho⟩) h
    exact .of_postings hpostings

/-- A maintenance leaves the market alone, but for the volumes that it resets. -/
theorem maintenance_path {L : Licence} {S : Settings} {accounts : List ℕ}
    {parameters : ChainParameters} {firstBlock : Bool} {s s' : Books} {u : Unit} (hs : Regular s)
    (h : performChainMaintenance S accounts parameters firstBlock s = .ok u s') : Path L s s' := by
  obtain ⟨s₁, hshared, hbudget⟩ := performChainMaintenance_ok hs h
  have hfirst : Beside s s₁ := ⟨hshared.aside hs.toCoreIssued, hshared.fbas⟩
  have hnext : Beside s₁ (s₁.nextInterval parameters firstBlock) :=
    ⟨⟨rfl, rfl, rfl, rfl, rfl, fun _ _ => rfl,
      fun hs => ⟨hs.balances, hs.funds, hs.pending⟩⟩, id⟩
  have hreset := postings_resetVolumes (L := L) (s₁.nextInterval parameters firstBlock)
  have hcore : CoreIssued (s₁.nextInterval parameters firstBlock).resetVolumes :=
    hreset.coreIssued (hnext.regular (hfirst.regular hs)).toCoreIssued
  obtain ⟨haside, hfbas⟩ := asideCore_processBudget _ u s' hbudget hcore
  have hlast : Beside (s₁.nextInterval parameters firstBlock).resetVolumes s' := by
    refine ⟨haside, ?_⟩
    rw [hfbas]
    exact id
  exact .beside hfirst (.beside hnext ((Path.of_postings hreset).trans (.of_beside hlast)))

/-- What an event may need a licence for. -/
def Event.Licensed (L : Licence) (s : Books) : Event → Prop
  | operation op => op.Licensed L s
  | _ => True

/-- **An event is a path.** -/
theorem Event.path {L : Licence} {S : Settings} {e : Event} {s s' : Books} {u : Unit}
    (hs : Regular s) (hcap : ¬ L.excess → Capped s) (hfits : s.Fits) (hL : e.Licensed L s)
    (h : e.run S s = .ok u s') : Path L s s' := by
  cases e with
  | operation op => exact Operation.path ⟨hs.toSound, hcap⟩ hfits hL h
  | block time =>
    unfold Event.run at h
    obtain rfl := update_eq_ok.mp h
    exact .posting (.tick time) (.refl _)
  | clearExpiredOrders => exact .of_postings (postings_clearExpiredOrders ⟨hs.toSound, hcap⟩ h)
  | updateExpiredFeeds => exact .of_postings (postings_updateExpiredFeeds ⟨hs.toSound, hcap⟩ h)
  | maintenance accounts parameters firstBlock => exact maintenance_path hs h

/-- Everything is allowed. -/
def Licence.all : Licence := ⟨True, True, fun _ => True⟩

/-- The event creates a limit order. -/
def Event.CreatesLimit : Event → Prop
  | operation (.limitOrderCreate _) => True
  | _ => False

/-- The event redeems an asset, if it is settled. -/
def Event.Redeems (k : ℕ) : Event → Prop
  | operation (.assetSettle op) => op.amount.assetId = k
  | _ => False

/-- Where supplies may be above their maximum, only new orders and redemptions need a licence. -/
theorem Event.licensed_of_excess {L : Licence} {s : Books} {e : Event} (hexcess : L.excess)
    (horders : e.CreatesLimit → L.orders)
    (hredeems : ∀ k b, e.Redeems k → s.bitassets.lookup k = some b → b.hasSettlement = true →
      L.redemptions k) : e.Licensed L s := by
  cases e with
  | operation op =>
    cases op with
    | limitOrderCreate op => exact horders trivial
    | assetSettle op => exact fun b => hredeems _ b rfl
    | assetUpdate op => exact fun hL => absurd hexcess hL
    | callOrderUpdate op => exact fun hL => absurd hexcess hL
    | transfer | limitOrderCancel | assetCreate | assetUpdateBitasset | assetUpdateFeedProducers
    | assetIssue | assetReserve | assetFundFeePool | assetGlobalSettle | assetPublishFeed
    | assetClaimFees | lock => trivial
  | block | clearExpiredOrders | updateExpiredFeeds | maintenance => trivial

theorem Event.licensed_all (s : Books) (e : Event) : e.Licensed .all s :=
  Event.licensed_of_excess trivial (fun _ => trivial) fun _ _ _ _ _ => trivial

/-- **Events keep the books regular.** -/
theorem Event.regular {S : Settings} {e : Event} {s s' : Books} {u : Unit} (hs : Regular s)
    (hfits : s.Fits) (h : e.run S s = .ok u s') : Regular s' :=
  (Event.path (L := .all) hs (fun hL => absurd trivial hL) hfits (e.licensed_all s) h).regular hs

/-- Every bitasset is an asset. -/
def Listed (s : Books) : Prop := ∀ k, s.bitassets.lookup k ≠ none → s.assets.lookup k ≠ none

theorem Listed.of_modify {s : Books} (h : Listed s) {t : Table ℕ AssetDynamicData} (k : ℕ)
    (g : BitassetData → BitassetData) :
    Listed { s with bitassets := s.bitassets.modify k g, dynamicData := t } := by
  intro k' hk'
  refine h k' fun hnone => hk' ?_
  exact Table.lookup_modify_eq_none k g hnone

theorem Posting.listed {L : Licence} {s s' : Books} {v : ℕ → ℤ} (h : Posting L s v s')
    (hs : Listed s) : Listed s' := by
  cases h with
  | paid h =>
    rw [h.rest]
    exact hs
  | createLimit | reduceLimit | removeLimit | openCall | changeCall | setCollateral | closeCall
  | createSettlement | reduceSettlement | removeSettlement | issue | tick => exact hs
  | settle hb => exact hs.of_modify _ _
  | redeem hL hb => exact hs.of_modify _ _
  | setBitasset hb => exact hs.of_modify _ _
  | @setAsset k a g ha =>
    intro k' hk'
    change (s.assets.modify k g).lookup k' ≠ none
    rw [Table.lookup_modify]
    split
    · rw [ha]
      exact Option.some_ne_none _
    · exact hs k' hk'
  | @createAsset k a pool t hassets hdata hbitassets ht =>
    intro k' hk'
    change (s.assets.insert k a).lookup k' ≠ none
    by_cases hk : k' = k
    · rw [hk, AList.lookup_insert]
      exact Option.some_ne_none _
    · rw [AList.lookup_insert_ne hk]
      refine hs k' fun hnone => hk' ?_
      change t.lookup k' = none
      rcases ht with rfl | ⟨b, rfl, -⟩
      · exact hnone
      · rw [AList.lookup_insert_ne hk]
        exact hnone

theorem Beside.listed {s s' : Books} (h : Beside s s') (hs : Listed s) : Listed s' := by
  intro k hk
  rw [h.bitassets] at hk
  rw [h.assets]
  exact hs k hk

/-! ### Reachable states -/

/-- The books that `init_genesis` creates. There is no order but the call orders of the genesis
state, whose debts are the supplies of the bitassets, and the only interest pool is empty. -/
structure Genesis (s : Books) : Prop where
  fits : s.Fits
  core : CoreIssued s
  listed : Listed s
  balances : BalancesNonneg s.balances
  funds : FundsNonneg s.dynamicData
  pending : PendingNonneg s.statistics
  limitOrders : s.limitOrders = .empty
  settlements : s.settlements = .empty
  calls : ∀ id o, s.callOrders.lookup id = some o →
    o.Sound ∧ s.Lends o.debtType o.callPrice.base.assetId
  bitassets : ∀ k b, s.bitassets.lookup k = some b →
    b.feeds = ∅ ∧ b.currentFeed = .null ∧ b.settlementPrice = .null ∧ b.settlementFund = 0 ∧
      supplyOf s.dynamicData k = some (s.debts k)
  lockData : ∀ k d, s.lockData.lookup k = some d →
    d.interestPool = 0 ∧ d.profileReceivePercent ≤ hundredPercent
  lockedBalances : s.lockedBalances = .empty
  vestingBalances : s.vestingBalances = .empty
  fbas : ∀ id f, s.fbas.lookup id = some f → f.accumulatedFbaFees = 0
  witnessBudget : s.witnessBudget = 0
  /-- Every supply is the sum of what was given out. -/
  supplied : ∀ k, s.wealth k ≤ 0
  capped : Capped s

theorem Genesis.solvent {s : Books} (h : Genesis s) : Solvent s where
  balances := h.balances
  funds := h.funds
  pending := h.pending
  limits id o ho := by
    rw [h.limitOrders] at ho
    cases ho
  settlements id o ho := by
    rw [h.settlements] at ho
    cases ho
  calls := h.calls
  feeds k b hb := by
    obtain ⟨hfeeds, hcurrent, -⟩ := h.bitassets k b hb
    refine ⟨?_, ?_⟩
    · intro publisher f hf
      rw [hfeeds] at hf
      cases hf
    · rw [hcurrent]
      decide
  unsettled k b hb _ := (h.bitassets k b hb).2.2.2
  settled k b hb hsettled := by
    unfold BitassetData.hasSettlement at hsettled
    rw [(h.bitassets k b hb).2.2.1] at hsettled
    exact absurd hsettled (by decide)
  toCoreIssued := h.core
  fbas id f hf := (h.fbas id f hf).ge
  pools k d hd := (h.lockData k d hd).1.ge
  receive k d hd := (h.lockData k d hd).2
  profits id l hl := by
    rw [h.lockedBalances] at hl
    cases hl
  locks id l hl := by
    rw [h.lockedBalances] at hl
    cases hl
  vesting id b hb := by
    rw [h.vestingBalances] at hb
    cases hb
  witnessBudget := h.witnessBudget.ge

/-- The rule for invariants of runs. -/
theorem Steps.keep {S : Settings} {C : Books → Event → Prop} {B : Books → Books → Prop}
    {I : Books → Prop} {s s' : Books}
    (hevent : ∀ {s e s'}, C s e → e.run S s = .ok () s' → s.Fits → I s → I s')
    (hbeside : ∀ {s s'}, B s s' → I s → I s') (hs : s.Fits) (hI : I s) (h : Steps S C B s s') :
    I s' ∧ s'.Fits := by
  induction h with
  | refl => exact ⟨hI, hs⟩
  | event _ hC he hfits ih => exact ⟨hevent hC he ih.2 ih.1, hfits⟩
  | beside _ hb hfits ih => exact ⟨hbeside hb ih.1, hfits⟩

/-- The books of a chain, whatever was accepted since its genesis. -/
def Reachable (S : Settings) (s : Books) : Prop :=
  ∃ s₀, Genesis s₀ ∧ Steps S (fun _ _ => True) Beside s₀ s

/-- **The books are always regular.** -/
theorem Reachable.regular {S : Settings} {s : Books} (h : Reachable S s) : Regular s ∧ s.Fits := by
  obtain ⟨s₀, hgenesis, hsteps⟩ := h
  exact hsteps.keep (fun _ he hfits hs => Event.regular hs hfits he) Beside.regular hgenesis.fits
    hgenesis.solvent.toRegular

/-! ### A small chain -/

/-- Everybody may hold everything, and every operation costs 20. -/
def smallSettings : Settings where
  isAuthorizedAsset := fun _ _ _ => true
  calculateFee := fun _ _ => 20
  getProfit := fun s d => d.getProfit s

/-- Options without restrictions. -/
def AssetOptions.plain (maxSupply : ℤ) (issuerPermissions : Finset AssetFlag) (rate : Price) :
    AssetOptions where
  maxSupply := maxSupply
  flags := ∅
  issuerPermissions := issuerPermissions
  marketFeePercent := 0
  maxMarketFee := 0
  coreExchangeRate := rate
  whitelistMarkets := []
  blacklistMarkets := []
  marketFeePercent_le := Nat.zero_le _
  maxMarketFee_nonneg := nothing_nonneg

/-- A chain with a bitasset, 1, of which the first account has borrowed 1000, and an asset, 2, which
belongs to the second account. -/
def smallChain : Books where
  headTime := 1500000000
  cashbackVestingThreshold := 100
  assets := List.toAList
    [⟨core, ⟨committee, 8, .plain maxShareSupply ∅ ⟨⟨1, core⟩, ⟨1, core⟩⟩, none⟩⟩,
      ⟨1, ⟨10, 8, .plain maxShareSupply {.globalSettle} ⟨⟨1, core⟩, ⟨1, 1⟩⟩, none⟩⟩,
      ⟨2, ⟨11, 8, .plain maxShareSupply ∅ ⟨⟨1, core⟩, ⟨1, 2⟩⟩, none⟩⟩]
  dynamicData := List.toAList
    [⟨core, ⟨10 ^ 12 + 4000, 0, 0, 0⟩⟩, ⟨1, ⟨1000, 0, 0, 0⟩⟩, ⟨2, ⟨500, 0, 0, 0⟩⟩]
  bitassets := AList.singleton 1
    { options := ⟨86400, 1, 86400, 0, 2000, core, by decide, by decide, by decide⟩
      isPredictionMarket := false }
  lockData := AList.singleton core
    { assetId := core
      nominalInterestPerday := 1001126926400
      rewardCoefficient := 2000
      interestPool := 0
      maxPeriod := 720
      profileScalePercent := 285000
      profileReceivePercent := 10000
      canUnlockNotExpired := false }
  balances := List.toAList
    [⟨(10, core), { balance := 10 ^ 12 - 10 ^ 6 }⟩, ⟨(11, core), { balance := 10 ^ 6 }⟩,
      ⟨(10, 1), { balance := 1000 }⟩, ⟨(11, 2), { balance := 500 }⟩]
  statistics := List.toAList [⟨10, ⟨4000, 0, 0⟩⟩, ⟨11, ⟨0, 0, 0⟩⟩]
  limitOrders := .empty
  callOrders := Index.empty.create ⟨10, 4000, 1000, ⟨⟨16, core⟩, ⟨7, 1⟩⟩⟩
  settlements := .empty
  lockedBalances := .empty
  payouts := []
  fbas := List.toAList [⟨0, ⟨0, none⟩⟩, ⟨1, ⟨0, none⟩⟩, ⟨2, ⟨0, none⟩⟩]
  accounts := List.toAList
    [⟨4, ⟨4, 4, 4, 2000, 8000, 0, 4294967295, none, by decide, by decide⟩⟩,
      ⟨10, ⟨4, 4, 4, 2000, 3000, 5000, 4294967295, none, by decide, by decide⟩⟩,
      ⟨11, ⟨10, 10, 10, 2000, 3000, 5000, 4294967295, none, by decide, by decide⟩⟩]
  nextMaintenanceTime := 1500000000

/-- The second account may publish a feed. -/
def setProducer : Event := .operation (.assetUpdateFeedProducers
  { fee := ⟨20, core⟩, issuer := 10, assetToUpdate := 1, newFeedProducers := [11] })

/-- One of the bitasset for two of core. -/
def publishPrice : Event := .operation (.assetPublishFeed
  { fee := ⟨20, core⟩
    publisher := 11
    assetId := 1
    feed := ⟨⟨⟨1, 1⟩, ⟨2, core⟩⟩, ⟨⟨1, 1⟩, ⟨2, core⟩⟩, 1750, 1500⟩ })

/-- The bitasset is settled at this price. -/
def settleAll : Event := .operation (.assetGlobalSettle
  { fee := ⟨20, core⟩, issuer := 10, assetToSettle := 1, settlePrice := ⟨⟨1, 1⟩, ⟨2, core⟩⟩ })

/-- The small chain after some events. -/
def afterEvents : List Event → Books
  | [] => smallChain
  | e :: es => final (e.run smallSettings) (afterEvents es)

theorem genesis_smallChain : Genesis smallChain where
  fits := ⟨Table.forall_of_entries (by decide), Table.forall_of_entries (by decide)⟩
  core := ⟨by decide, by decide⟩
  listed k hk := by
    obtain ⟨b, hb⟩ := Option.ne_none_iff_exists'.mp hk
    cases List.mem_singleton.mp (AList.mem_lookup_iff.mp hb)
    decide
  balances := Table.forall_of_entries (by decide)
  funds := Table.forall_of_entries (by decide)
  pending := Table.forall_of_entries (by decide)
  limitOrders := rfl
  settlements := rfl
  calls := by
    refine Table.forall_of_entries fun e he => ?_
    cases List.mem_singleton.mp he
    exact ⟨⟨by decide, by decide, by decide, by decide⟩, _, rfl, by decide, rfl⟩
  bitassets := by
    refine Table.forall_of_entries fun e he => ?_
    cases List.mem_singleton.mp he
    exact ⟨rfl, rfl, rfl, rfl, by decide⟩
  lockData := Table.forall_of_entries (by decide)
  lockedBalances := rfl
  vestingBalances := rfl
  fbas := Table.forall_of_entries (by decide)
  witnessBudget := rfl
  supplied k :=
    match k with
    | 0 => by decide
    | 1 => by decide
    | 2 => by decide
    | k + 3 => le_of_eq rfl
  capped := by
    have hall : ∀ e ∈ smallChain.assets.entries, ((supplyOf smallChain.dynamicData e.1).all fun x =>
        decide (x ≤ e.2.options.maxSupply)) = true := by decide
    intro k supply hsupply a ha
    have hmax := hall ⟨k, a⟩ (AList.mem_lookup_iff.mp ha)
    simp only [hsupply] at hmax
    exact of_decide_eq_true hmax

theorem fits_afterEvents {es : List Event}
    (hcalls : ∀ e ∈ (afterEvents es).callOrders.table.entries,
      e.2.debt < 2 ^ 63 ∧ e.2.collateral < 2 ^ 63)
    (hprices : ∀ e ∈ (afterEvents es).bitassets.entries,
      e.2.settlementPrice.base.amount < 2 ^ 63 ∧ e.2.settlementPrice.quote.amount < 2 ^ 63) :
    (afterEvents es).Fits :=
  ⟨Table.forall_of_entries hcalls, Table.forall_of_entries hprices⟩

theorem run_afterEvents (es : List Event) {e : Event}
    (h : (e.run smallSettings).run' (afterEvents es) = some ()) :
    e.run smallSettings (afterEvents es) = .ok () (afterEvents (e :: es)) :=
  ok_final_of_run' h

theorem Steps.afterEvents {C : Books → Event → Prop} {B : Books → Books → Prop} {e : Event}
    {es : List Event} (hs : Steps smallSettings C B smallChain (afterEvents es))
    (hC : C (Ledger.afterEvents es) e)
    (h : (e.run smallSettings).run' (Ledger.afterEvents es) = some ())
    (hfits : (Ledger.afterEvents (e :: es)).Fits) :
    Steps smallSettings C B smallChain (Ledger.afterEvents (e :: es)) :=
  hs.event hC (run_afterEvents _ h) hfits

end FinChain.Ledger
