import FinChain.Lib.OrderedWalk
import FinChain.Chain.Slots
import Mathlib.Data.Prod.Lex

/-!
# The market history plugin

After each block, `update_market_histories` goes through the operations that were applied. Every
`fill_order_operation` is noted in the order history under the next lower sequence number of its market, and is
counted in one bucket for each of the tracked lengths of time. A match of two orders produces two of these operations, one for each
side; only the one that pays the asset with the smaller id is counted.

The next sequence number is looked up with `lower_bound`, and what was found is read without a look at whether anything was found.
Reading past the last entry is undefined in C++; here it is a parameter what that means
(`MarketHistoryPlugin.pastTheEnd`): nothing at all, or some key. The sums are `share_type`, which throws
if they do not fit, and everything that an operation writes besides is left out.
-/

namespace FinChain.Plugins

open Ledger Chain Exec

/-! ### Keys -/

/-- `bucket_key` -/
structure BucketKey where
  base : ℕ
  quote : ℕ
  seconds : ℕ
  opened : ℕ

/-- `history_key` -/
structure HistoryKey where
  base : ℕ
  quote : ℕ
  sequence : ℤ

/-- `std::tie( base, quote, seconds, open )` -/
def BucketKey.tie (k : BucketKey) : ℕ ×ₗ ℕ ×ₗ ℕ ×ₗ ℕ :=
  toLex (k.base, toLex (k.quote, toLex (k.seconds, k.opened)))

/-- `std::tie( base, quote, sequence )` -/
def HistoryKey.tie (k : HistoryKey) : ℕ ×ₗ ℕ ×ₗ ℤ := toLex (k.base, toLex (k.quote, k.sequence))

theorem BucketKey.tie_injective : Function.Injective BucketKey.tie := by
  rintro ⟨b, q, s, o⟩ ⟨b', q', s', o'⟩ h
  simpa [tie] using h

theorem HistoryKey.tie_injective : Function.Injective HistoryKey.tie := by
  rintro ⟨b, q, s⟩ ⟨b', q', s'⟩ h
  simpa [tie] using h

instance : LinearOrder BucketKey := LinearOrder.lift' BucketKey.tie BucketKey.tie_injective

instance : LinearOrder HistoryKey := LinearOrder.lift' HistoryKey.tie HistoryKey.tie_injective

theorem BucketKey.le_iff {a b : BucketKey} : a ≤ b ↔ a.base < b.base ∨ a.base = b.base ∧
    (a.quote < b.quote ∨ a.quote = b.quote ∧ (a.seconds < b.seconds ∨
      a.seconds = b.seconds ∧ a.opened ≤ b.opened)) := by
  show a.tie ≤ b.tie ↔ _
  simp [BucketKey.tie, Prod.Lex.toLex_le_toLex]

theorem HistoryKey.le_iff {a b : HistoryKey} : a ≤ b ↔ a.base < b.base ∨ a.base = b.base ∧
    (a.quote < b.quote ∨ a.quote = b.quote ∧ a.sequence ≤ b.sequence) := by
  show a.tie ≤ b.tie ↔ _
  simp [HistoryKey.tie, Prod.Lex.toLex_le_toLex]

/-! ### The database -/

/-- `fill_order_operation`, with what `fill_order` asserts and what a match cannot produce: two different
assets, no negative amount, and not nothing for nothing. -/
structure FillOrder where
  pays : Asset
  receives : Asset
  assets_ne : pays.assetId ≠ receives.assetId
  pays_mem : 0 ≤ pays.amount ∧ pays.amount < 2 ^ 63
  receives_mem : 0 ≤ receives.amount ∧ receives.amount < 2 ^ 63
  something : 0 < pays.amount ∨ 0 < receives.amount

/-- The operation for the other side of the match. -/
def FillOrder.swap (o : FillOrder) : FillOrder where
  pays := o.receives
  receives := o.pays
  assets_ne := o.assets_ne.symm
  pays_mem := o.receives_mem
  receives_mem := o.pays_mem
  something := o.something.symm

/-- `bucket_object`, besides its key -/
structure Bucket where
  highBase : ℤ
  highQuote : ℤ
  lowBase : ℤ
  lowQuote : ℤ
  openBase : ℤ
  openQuote : ℤ
  closeBase : ℤ
  closeQuote : ℤ
  baseVolume : ℤ
  quoteVolume : ℤ
  deriving DecidableEq

/-- `order_history_object` -/
structure OrderHistory where
  key : HistoryKey
  time : ℕ
  op : FillOrder

/-- The indices of the plugin. The order history is in the order in which its objects were created. -/
structure MarketDatabase where
  history : List OrderHistory := []
  buckets : Table BucketKey Bucket := ∅

/-- The configuration of the plugin, and what is read past the end of the order history. -/
structure MarketHistoryPlugin where
  trackedBuckets : List ℕ
  tracked_nodup : trackedBuckets.Nodup
  maximumHistoryPerBucketSize : ℕ
  /-- The key that `itr->key` is past the end, if that has any outcome. -/
  pastTheEnd : Option HistoryKey

/-- How the processing of an operation ends that does not return. -/
inductive MarketFault
  /-- Nothing can be read past the end. -/
  | pastTheEnd
  /-- An `int64_t` overflows. -/
  | overflow
  | divisionByZero
  | assertion
  /-- "Could not create object! Most likely a uniqueness constraint is violated." -/
  | notUnique
  deriving DecidableEq

/-- A number that has to be an `int64_t`. -/
def checkedInt64 (x : ℤ) : Except MarketFault ℤ := if -2 ^ 63 ≤ x ∧ x < 2 ^ 63 then .ok x else .error .overflow

/-! ### The order history -/

/-- The key of the entry that `history_idx.lower_bound( hkey )` finds. -/
def lowerBoundKey (history : List OrderHistory) (hkey : HistoryKey) : Option HistoryKey :=
  ((history.map OrderHistory.key).filter (hkey ≤ ·)).min?

namespace FillOrder

variable (o : FillOrder)

/-- The assets of the market, the smaller id first. -/
def marketBase : ℕ := min o.pays.assetId o.receives.assetId

def marketQuote : ℕ := max o.pays.assetId o.receives.assetId

end FillOrder

namespace MarketHistoryPlugin

variable (P : MarketHistoryPlugin)

/-- `itr->key`, whatever `itr` is. -/
def readKey (itr : Option HistoryKey) : Except MarketFault HistoryKey :=
  match itr.or P.pastTheEnd with
  | some key => .ok key
  | none => .error .pastTheEnd

/-- The sequence number of the new entry. -/
def nextSequence (history : List OrderHistory) (o : FillOrder) : Except MarketFault ℤ := do
  let found ← P.readKey (lowerBoundKey history ⟨o.marketBase, o.marketQuote, -2 ^ 63⟩)
  if found.base = o.marketBase ∧ found.quote = o.marketQuote then checkedInt64 (found.sequence - 1)
  else return 0

/-- The first part of `operator()`: a new `order_history_object`. -/
def noteFill (time : ℕ) (o : FillOrder) (history : List OrderHistory) :
    Except MarketFault (List OrderHistory) := do
  let sequence ← P.nextSequence history o
  let hkey : HistoryKey := ⟨o.marketBase, o.marketQuote, sequence⟩
  check .notUnique (hkey ∉ history.map OrderHistory.key)
  -- `hkey.sequence += 200`; what is then found is not used
  let _ ← checkedInt64 (sequence + 200)
  return history ++ [⟨hkey, time, o⟩]

end MarketHistoryPlugin

/-! ### The buckets -/

namespace Bucket

variable (b : Bucket)

/-- `high()` -/
def high (key : BucketKey) : Price := ⟨⟨b.highBase, key.base⟩, ⟨b.highQuote, key.quote⟩⟩

/-- `low()` -/
def low (key : BucketKey) : Price := ⟨⟨b.lowBase, key.base⟩, ⟨b.lowQuote, key.quote⟩⟩

/-- A new bucket. -/
def create (tradePrice : Price) : Except MarketFault Bucket := do
  let quoteVolume ← checkedInt64 (0 + tradePrice.quote.amount)
  let baseVolume ← checkedInt64 (0 + tradePrice.base.amount)
  return {
    highBase := tradePrice.base.amount, highQuote := tradePrice.quote.amount
    lowBase := tradePrice.base.amount, lowQuote := tradePrice.quote.amount
    openBase := tradePrice.base.amount, openQuote := tradePrice.quote.amount
    closeBase := tradePrice.base.amount, closeQuote := tradePrice.quote.amount
    baseVolume := baseVolume, quoteVolume := quoteVolume }

/-- `if( b.high() < trade_price )` -/
def raise (key : BucketKey) (tradePrice : Price) : Bucket :=
  if (b.high key).lt tradePrice then { b with highBase := b.closeBase, highQuote := b.closeQuote } else b

/-- `if( b.low() > trade_price )` -/
def lower (key : BucketKey) (tradePrice : Price) : Bucket :=
  if (b.low key).gt tradePrice then { b with lowBase := b.closeBase, lowQuote := b.closeQuote } else b

/-- An existing bucket. -/
def update (key : BucketKey) (tradePrice : Price) : Except MarketFault Bucket := do
  let baseVolume ← checkedInt64 (b.baseVolume + tradePrice.base.amount)
  let quoteVolume ← checkedInt64 (b.quoteVolume + tradePrice.quote.amount)
  let b := { b with
    baseVolume := baseVolume, quoteVolume := quoteVolume
    closeBase := tradePrice.base.amount, closeQuote := tradePrice.quote.amount }
  return (b.raise key tradePrice).lower key tradePrice

/-- The bucket after a trade, new or existing. -/
def fill (key : BucketKey) (tradePrice : Price) : Option Bucket → Except MarketFault Bucket
  | none => create tradePrice
  | some b => b.update key tradePrice

end Bucket

namespace MarketHistoryPlugin

variable (P : MarketHistoryPlugin)

/-- `cutoff`, in seconds since the epoch; the product is a `uint32_t`. -/
def cutoff (bucket : ℕ) : ℕ := word32 (bucket * P.maximumHistoryPerBucketSize)

/-- The `while` loop that removes old buckets. -/
def removeOld (key : BucketKey) (buckets : Table BucketKey Bucket) : Table BucketKey Bucket :=
  buckets.eraseAll ((buckets.keysFrom { key with opened := 0 }).takeWhile fun k =>
    k.base = key.base && k.quote = key.quote && k.seconds = key.seconds && k.opened < P.cutoff key.seconds)

/-- The body of the loop over the tracked lengths of time. -/
def fillBucket (now : ℕ) (o : FillOrder) (buckets : Table BucketKey Bucket) (bucket : ℕ) :
    Except MarketFault (Table BucketKey Bucket) :=
  -- "skipping because base > quote"
  if o.receives.assetId < o.pays.assetId then .ok buckets
  else do
    check .assertion (o.pays.assetId ≠ o.receives.assetId)
    let tradePrice : Price := ⟨o.pays, o.receives⟩
    check .divisionByZero (bucket ≠ 0)
    let key : BucketKey := ⟨o.pays.assetId, o.receives.assetId, bucket, now / bucket * bucket⟩
    let b ← Bucket.fill key tradePrice (buckets.lookup key)
    let buckets := buckets.insert key b
    return if P.maximumHistoryPerBucketSize ≠ 0 then P.removeOld key buckets else buckets

/-- `operation_process_fill_order::operator()` -/
def processFill (s : MarketDatabase) (fill : ℕ × FillOrder) : Except MarketFault MarketDatabase := do
  let history ← P.noteFill fill.1 fill.2 s.history
  let buckets ← P.trackedBuckets.foldlM (P.fillBucket fill.1 fill.2) s.buckets
  return ⟨history, buckets⟩

end MarketHistoryPlugin

/-- A block, as the orders that were matched in it. -/
structure MarketBlock where
  timestamp : ℕ
  fills : List FillOrder

/-- The operations that the block applied: two for every match. -/
def MarketBlock.appliedOperations (b : MarketBlock) : List (ℕ × FillOrder) :=
  b.fills.flatMap fun o => [(b.timestamp, o), (b.timestamp, o.swap)]

/-- `update_market_histories` -/
def MarketHistoryPlugin.updateMarketHistories (P : MarketHistoryPlugin) (s : MarketDatabase) (b : MarketBlock) :
    Except MarketFault MarketDatabase :=
  if P.maximumHistoryPerBucketSize = 0 then .ok s
  else if P.trackedBuckets = [] then .ok s
  else b.appliedOperations.foldlM P.processFill s

end FinChain.Plugins
