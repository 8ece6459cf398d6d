import FinChain.Lib.Exec
import Mathlib.Algebra.Order.Field.Rat

/-!
# Amounts and prices

`asset` and `price` with their arithmetic. Amounts are `share_type`, 64-bit integers that throw when
they overflow; here they are integers, so that a run of the model is a run of the code unless the
code has thrown. Products are formed in `boost::multiprecision::uint128_t`, which wraps around: a
negative amount becomes a huge one and fails the check of the result against the largest share
supply.

Comparing two assets of different types throws, comparing two prices does not.
-/

namespace FinChain.Ledger

open Exec

/-- Why an operation is refused. -/
inductive LedgerError
  /-- A failed `FC_ASSERT`. -/
  | assertion
  /-- An object that does not exist. -/
  | notFound
  /-- `insufficient_fee`. -/
  | insufficientFee
  /-- `insufficient_feeds`. -/
  | insufficientFeeds
  /-- `black_swan_exception`. -/
  | blackSwan
  /-- `call_order_update_unfilled_margin_call`. -/
  | unfilledMarginCall
  /-- The code goes on with an iterator to an object that is gone, which has no defined meaning. -/
  | danglingIterator
  deriving DecidableEq, Repr

/-- `asset_id_type()`, the core asset. -/
def core : ℕ := 0

/-- `GRAPHENE_MAX_SHARE_SUPPLY`. -/
def maxShareSupply : ℤ := 10 ^ 18

/-- `GRAPHENE_100_PERCENT`. -/
def hundredPercent : ℕ := 10000

/-- `GRAPHENE_COLLATERAL_RATIO_DENOM`. -/
def collateralRatioDenom : ℤ := 1000

/-- `uint128_t` of a number. -/
def uint128 (x : ℤ) : ℤ := x % 2 ^ 128

/-- What a `share_type` can hold. -/
def FitsShare (x : ℤ) : Prop := -2 ^ 63 ≤ x ∧ x < 2 ^ 63

instance (x : ℤ) : Decidable (FitsShare x) := inferInstanceAs (Decidable (_ ∧ _))

theorem fitsShare_thousand : FitsShare 1000 := by decide

theorem nothing_nonneg : (0 : ℤ) ≤ 0 := Int.le_refl 0

theorem fifth_le_hundredPercent : 2000 ≤ hundredPercent := by decide

/-- `asset`. -/
structure Asset where
  amount : ℤ
  assetId : ℕ
  deriving DecidableEq, Repr

/-- `price`. -/
structure Price where
  base : Asset
  quote : Asset
  deriving DecidableEq, Repr

namespace Asset

/-- `operator <`, which compares amounts of one asset only. -/
def lt (a b : Asset) : Except LedgerError Bool :=
  if a.assetId = b.assetId then .ok (a.amount < b.amount) else .error .assertion

/-- `operator <=`. -/
def le (a b : Asset) : Except LedgerError Bool :=
  if a = b then .ok true else a.lt b

/-- `operator >`. -/
def gt (a b : Asset) : Except LedgerError Bool := (a.le b).map (!·)

/-- `operator >=`. -/
def ge (a b : Asset) : Except LedgerError Bool := (a.lt b).map (!·)

/-- `std::min`. -/
def min (a b : Asset) : Except LedgerError Asset := (b.lt a).map fun less => if less then b else a

/-- `operator +`. -/
def add (a b : Asset) : Except LedgerError Asset :=
  if a.assetId = b.assetId then .ok ⟨a.amount + b.amount, a.assetId⟩ else .error .assertion

/-- `operator -`. -/
def sub (a b : Asset) : Except LedgerError Asset :=
  if a.assetId = b.assetId then .ok ⟨a.amount - b.amount, a.assetId⟩ else .error .assertion

/-- The unary `operator -`. -/
def neg (a : Asset) : Asset := ⟨-a.amount, a.assetId⟩

/-- An amount at the rate of `num` for `den`, rounded down. -/
def convert (amount : ℤ) (num den : Asset) : Except LedgerError Asset :=
  let result := uint128 (uint128 amount * num.amount) / den.amount
  if 0 < den.amount ∧ result ≤ maxShareSupply then .ok ⟨result, num.assetId⟩
  else .error .assertion

/-- `operator *` of an asset and a price. -/
def mul (a : Asset) (p : Price) : Except LedgerError Asset :=
  if a.assetId = p.base.assetId then convert a.amount p.quote p.base
  else if a.assetId = p.quote.assetId then convert a.amount p.base p.quote
  else .error .assertion

/-- `operator /`. -/
def div (base quote : Asset) : Except LedgerError Price :=
  if base.assetId ≠ quote.assetId then .ok ⟨base, quote⟩ else .error .assertion

end Asset

namespace Price

/-- `price()`. -/
def null : Price := ⟨⟨0, core⟩, ⟨0, core⟩⟩

/-- `operator ~`. -/
def inv (p : Price) : Price := ⟨p.quote, p.base⟩

/-- `price::max`. -/
def max (base quote : ℕ) : Except LedgerError Price := Asset.div ⟨maxShareSupply, base⟩ ⟨1, quote⟩

/-- `price::min`. -/
def min (base quote : ℕ) : Except LedgerError Price := Asset.div ⟨1, base⟩ ⟨maxShareSupply, quote⟩

/-- The cross products that decide between two prices in the same assets. -/
def cross (a b : Price) : ℤ := uint128 (uint128 b.quote.amount * a.base.amount)

/-- `operator ==`. -/
def eq (a b : Price) : Bool :=
  a.base.assetId = b.base.assetId ∧ a.quote.assetId = b.quote.assetId ∧ a.cross b = b.cross a

/-- `operator <`. -/
def lt (a b : Price) : Bool :=
  if a.base.assetId ≠ b.base.assetId then a.base.assetId < b.base.assetId
  else if a.quote.assetId ≠ b.quote.assetId then a.quote.assetId < b.quote.assetId
  else a.cross b < b.cross a

/-- `operator <=`. -/
def le (a b : Price) : Bool := a.eq b || a.lt b

/-- `operator >`. -/
def gt (a b : Price) : Bool := !a.le b

/-- `operator >=`. -/
def ge (a b : Price) : Bool := !a.lt b

def isNull (p : Price) : Bool := p.eq null

def validate (p : Price) : Except LedgerError Unit :=
  if 0 < p.base.amount ∧ 0 < p.quote.amount ∧ p.base.assetId ≠ p.quote.assetId then .ok ()
  else .error .assertion

/-- The loops that make numerator and denominator small enough. The numbers have less than 128 bits
and lose one in every round. -/
def shrink (half : ℤ → ℤ) : ℕ → ℚ → ℚ
  | 0, cp => cp
  | fuel + 1, cp =>
    if maxShareSupply < cp.num ∨ maxShareSupply < cp.den then
      shrink half fuel (Rat.divInt (half cp.num) (half cp.den))
    else cp

/-- `price::call_price`. -/
def callPrice (debt collateral : Asset) (collateralRatio : ℕ) : Except LedgerError Price :=
  -- `boost::rational` throws at a zero denominator
  if collateral.amount = 0 then .error .assertion
  else
    let cp := shrink (fun n => n / 2 + 1) 128
      (Rat.divInt debt.amount collateral.amount * Rat.divInt collateralRatio collateralRatioDenom)
    (Asset.div ⟨cp.num, debt.assetId⟩ ⟨cp.den, collateral.assetId⟩).map inv

end Price

/-- `price_feed`. -/
structure PriceFeed where
  settlementPrice : Price
  coreExchangeRate : Price
  maintenanceCollateralRatio : ℕ
  maximumShortSqueezeRatio : ℕ
  deriving DecidableEq, Repr

/-- `price_feed()`. -/
def PriceFeed.null : PriceFeed where
  settlementPrice := .null
  coreExchangeRate := .null
  maintenanceCollateralRatio := 1750
  maximumShortSqueezeRatio := 1500

/-- `price_feed::max_short_squeeze_price`. -/
def PriceFeed.maxShortSqueezePrice (f : PriceFeed) : Except LedgerError Price :=
  if f.settlementPrice.quote.amount = 0 ∨ f.maximumShortSqueezeRatio = 0 then .error .assertion
  else
    let cp := Price.shrink (fun n => n / 2 + n % 2) 128
      (Rat.divInt f.settlementPrice.base.amount f.settlementPrice.quote.amount *
        Rat.divInt collateralRatioDenom f.maximumShortSqueezeRatio)
    Asset.div ⟨cp.num, f.settlementPrice.base.assetId⟩ ⟨cp.den, f.settlementPrice.quote.assetId⟩

end FinChain.Ledger
