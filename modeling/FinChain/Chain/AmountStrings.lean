import FinChain.Ledger.Amounts
import FinChain.Lib.Decimal
import Mathlib.Algebra.Order.Field.Basic
import Mathlib.Data.Rat.Cast.Order
import Mathlib.Tactic.FieldSimp
import Mathlib.Tactic.Linarith

/-!
# Amounts as text

`amount_to_string` writes an amount in units of the asset, with the decimals that its precision allows, and
`amount_from_string` reads such a text. Both take a sign in their own way. What is written comes from a quotient
and a remainder that round to zero, so for a negative amount the decimals are those of what is missing to the next unit, and
without the first digit of that number. What is read is taken apart by position: the sign is the first
character, and then the text in front of the point is one character too long, which `std::stoll` does not mind
as long as a digit comes first.

So a text that is accepted denotes what is returned (`amountFromString_denotes`), and amounts that are not negative
survive (`roundTrip_of_nonneg`), as do whole numbers of units. No other negative amount does (`not_roundTrip_of_neg`):
below one unit the sign is lost, and above it the decimals would have to be the same number from both ends.
-/

namespace FinChain.Chain

open FinChain.Ledger Decimal

/-- Why a text is no amount. -/
inductive AmountError
  /-- `FC_THROW` at a character that does not belong there. -/
  | character
  /-- `std::invalid_argument` of `std::stoll`. -/
  | noNumber
  /-- `std::out_of_range` of `std::stoll`. -/
  | outOfRange
  /-- The overflow of a `share_type`. -/
  | overflow
  /-- A failed `FC_ASSERT`. -/
  | assertion
  deriving DecidableEq, Repr

/-- A number that has to be an `int64_t`. -/
def int64 (e : AmountError) (x : ℤ) : Except AmountError ℤ := if FitsShare x then .ok x else .error e

/-- `std::to_string` of an `int64_t`. -/
def toText (x : ℤ) : List Char := if x < 0 then '-' :: digits x.natAbs else digits x.natAbs

/-- `std::stoll` of a text of digits, signs and points. It reads what is a number in front. -/
def stoll (s : List Char) : Except AmountError ℤ :=
  let negative := s.head? = some '-'
  let number := (if negative then s.tail else s).takeWhile Char.isDigit
  if number = [] then .error .noNumber
  else int64 .outOfRange (if negative then -(value number : ℤ) else value number)

/-- `s.substr( pos, len )`, where a missing length is `npos`. -/
def substr (s : List Char) (pos : ℕ) : Option ℕ → List Char
  | some len => (s.drop pos).take len
  | none => s.drop pos

/-- `asset::scaled_precision` -/
def scaledPrecision (precision : ℕ) : Except AmountError ℤ :=
  if precision < 19 then .ok (10 ^ precision) else .error .assertion

/-- The loop over the characters. It finds a sign and a point, each at most once. -/
def scanAmount : List Char → Bool → Bool → Except AmountError (Bool × Bool)
  | [], negativeFound, decimalFound => .ok (negativeFound, decimalFound)
  | c :: s, negativeFound, decimalFound =>
    if c.isDigit then scanAmount s negativeFound decimalFound
    else if c = '-' ∧ negativeFound = false then scanAmount s true decimalFound
    else if c = '.' ∧ decimalFound = false then scanAmount s negativeFound true
    else .error .character

/-- The part of `amount_from_string` that reads what is in front of the point. -/
def wholeUnits (lhs : List Char) (scaled : ℤ) : Except AmountError ℤ :=
  if lhs = [] then .ok 0
  else do
    let units ← stoll lhs
    let satoshis ← int64 .overflow (units * scaled)
    int64 .overflow (0 + satoshis)

/-- The part of `amount_from_string` that reads what is behind the point. -/
def addDecimals (rhs : List Char) (scaled satoshis : ℤ) : Except AmountError ℤ :=
  let maxRhsSize := (toText scaled).tail.length
  if rhs.length ≤ maxRhsSize then
    let rhs := rhs ++ List.replicate (maxRhsSize - rhs.length) '0'
    if rhs = [] then .ok satoshis
    else do
      let decimals ← stoll rhs
      int64 .overflow (satoshis + decimals)
  else .error .assertion

/-- `asset_object::amount_from_string` of an asset with a precision. It returns the amount of that asset. -/
def amountFromString (precision : ℕ) (amountString : List Char) : Except AmountError ℤ := do
  let (negativeFound, decimalFound) ← scanAmount amountString false false
  let scaled ← scaledPrecision precision
  let decimalPos := amountString.findIdx? (· = '.')
  let satoshis ← wholeUnits (substr amountString negativeFound.toNat decimalPos) scaled
  let satoshis ←
    if decimalFound then addDecimals (substr amountString (decimalPos.getD 0 + 1) none) scaled satoshis
    else .ok satoshis
  if satoshis ≤ maxShareSupply then
    if negativeFound then int64 .overflow (satoshis * -1) else .ok satoshis
  else .error .assertion

/-- The loop of `amount_to_string` that computes the scale. -/
def scaleOf : ℕ → Except AmountError ℤ
  | 0 => .ok 1
  | precision + 1 => do
    let scaled ← scaleOf precision
    int64 .overflow (scaled * 10)

/-- `asset_object::amount_to_string` -/
def amountToString (precision : ℕ) (amount : ℤ) : Except AmountError (List Char) := do
  let scaled ← scaleOf precision
  let result := toText (amount.tdiv scaled)
  let decimals := amount.tmod scaled
  .ok (if decimals ≠ 0 then result ++ '.' :: (toText (scaled + decimals)).tail else result)

/-! ### Taking a text apart -/

/-- `[-]digits[.digits]` -/
def plainText (negative : Bool) (lhs : List Char) (rhs : Option (List Char)) : List Char :=
  (if negative then ['-'] else []) ++ (lhs ++ (rhs.map fun r => '.' :: r).getD [])

theorem scanAmount_append {l : List Char} (h : AllDigits l) (s : List Char) (negativeFound decimalFound : Bool) :
    scanAmount (l ++ s) negativeFound decimalFound = scanAmount s negativeFound decimalFound := by
  induction l with
  | nil => rfl
  | cons c l ih =>
    obtain ⟨hc, hl⟩ := h.of_cons
    rw [List.cons_append, scanAmount, if_pos hc, ih hl]

theorem scanAmount_digits {l : List Char} (h : AllDigits l) (negativeFound decimalFound : Bool) :
    scanAmount l negativeFound decimalFound = .ok (negativeFound, decimalFound) := by
  have happend := scanAmount_append h [] negativeFound decimalFound
  rwa [List.append_nil] at happend

/-- The signs and points of a text in the plain form are where they belong. -/
theorem scanAmount_plainText {negative : Bool} {lhs : List Char} {rhs : Option (List Char)} (hl : AllDigits lhs)
    (hr : ∀ r ∈ rhs, AllDigits r) : scanAmount (plainText negative lhs rhs) false false = .ok (negative, rhs.isSome) := by
  have hback : ∀ n, scanAmount ((rhs.map fun r => '.' :: r).getD []) n false = .ok (n, rhs.isSome) := by
    intro n
    cases rhs with
    | none => rfl
    | some r => exact scanAmount_digits (hr r rfl) n true
  cases negative with
  | false =>
    show scanAmount (lhs ++ _) false false = _
    rw [scanAmount_append hl, hback]
  | true =>
    show scanAmount (lhs ++ _) true false = _
    rw [scanAmount_append hl, hback]

theorem ne_point_of_isDigit {c : Char} (h : c.isDigit = true) : c ≠ '.' := by
  rintro rfl
  exact absurd h (by decide)

theorem ne_sign_of_isDigit {c : Char} (h : c.isDigit = true) : c ≠ '-' := by
  rintro rfl
  exact absurd h (by decide)

theorem findIdx_plainText (negative : Bool) {lhs : List Char} (rhs : Option (List Char)) (hl : AllDigits lhs) :
    (rhs.isSome = false → (plainText negative lhs rhs).findIdx? (· = '.') = none) ∧
      (rhs.isSome = true → (plainText negative lhs rhs).findIdx? (· = '.') =
        some (negative.toNat + lhs.length)) := by
  have hdigits : lhs.findIdx? (fun c => decide (c = '.')) = none := by
    rw [List.findIdx?_eq_none_iff]
    exact fun c hc => decide_eq_false (ne_point_of_isDigit (hl c hc))
  cases rhs with
  | none =>
    refine ⟨fun _ => ?_, fun h => absurd h (by simp)⟩
    cases negative <;> simp [plainText, List.findIdx?_cons, hdigits]
  | some r =>
    refine ⟨fun h => absurd h (by simp), fun _ => ?_⟩
    cases negative <;> simp [plainText, List.findIdx?_append, List.findIdx?_cons, hdigits, Nat.add_comm]

/-- What is taken for the part in front of the point. With a sign it includes the point. -/
theorem lhs_plainText {negative : Bool} {lhs : List Char} {rhs : Option (List Char)} (hl : AllDigits lhs) :
    substr (plainText negative lhs rhs) negative.toNat ((plainText negative lhs rhs).findIdx? (· = '.')) =
      lhs ++ if negative && rhs.isSome then ['.'] else [] := by
  obtain ⟨hnone, hsome⟩ := findIdx_plainText negative rhs hl
  cases rhs with
  | none =>
    rw [hnone rfl]
    cases negative <;> simp [substr, plainText]
  | some r =>
    rw [hsome rfl]
    cases negative with
    | false => simp [substr, plainText]
    | true =>
      have hlen : (true).toNat + lhs.length = (lhs ++ ['.']).length := by simp [Nat.add_comm]
      show (List.drop 1 ('-' :: (lhs ++ '.' :: r))).take _ = _
      rw [hlen, List.drop_one, List.tail_cons, show lhs ++ '.' :: r = (lhs ++ ['.']) ++ r by simp, List.take_left]
      rfl

theorem rhs_plainText {negative : Bool} {lhs r : List Char} (hl : AllDigits lhs) :
    substr (plainText negative lhs (some r))
      (((plainText negative lhs (some r)).findIdx? (· = '.')).getD 0 + 1) none = r := by
  rw [(findIdx_plainText _ _ hl).2 rfl, Option.getD_some]
  cases negative with
  | false =>
    show List.drop ((false).toNat + lhs.length + 1) (lhs ++ '.' :: r) = r
    rw [show (false).toNat + lhs.length + 1 = (lhs ++ ['.']).length by simp,
      show lhs ++ '.' :: r = (lhs ++ ['.']) ++ r by simp, List.drop_left]
  | true =>
    show List.drop ((true).toNat + lhs.length + 1) ('-' :: (lhs ++ '.' :: r)) = r
    rw [show (true).toNat + lhs.length + 1 = ('-' :: (lhs ++ ['.'])).length by simp [Nat.add_comm],
      show '-' :: (lhs ++ '.' :: r) = ('-' :: (lhs ++ ['.'])) ++ r by simp, List.drop_left]

/-- What `std::stoll` reads of digits, which a point may follow. -/
theorem stoll_digits {l : List Char} (h : AllDigits l) (hne : l ≠ []) (dot : Bool) :
    stoll (l ++ if dot then ['.'] else []) = int64 .outOfRange (value l) := by
  obtain ⟨c, l', rfl⟩ := List.exists_cons_of_ne_nil hne
  have hsign : ¬ (c :: l' ++ if dot then ['.'] else []).head? = some '-' := by
    simpa using ne_sign_of_isDigit h.of_cons.1
  have htake : ((c :: l') ++ if dot then ['.'] else []).takeWhile Char.isDigit = c :: l' := by
    rw [List.takeWhile_append_of_pos h]
    cases dot <;> simp
  rw [stoll]
  simp only [hsign, if_false, htake, if_neg hne]

/-! ### Reading -/

theorem amountBind_ok {α β : Type} (a : α) (f : α → Except AmountError β) : (Except.ok a >>= f) = f a := rfl

theorem int64_eq_ok {e : AmountError} {x y : ℤ} : int64 e x = .ok y ↔ FitsShare x ∧ x = y := by
  by_cases h : FitsShare x <;> simp [int64, h]

theorem fitsShare_of_le {x : ℤ} (hlow : -10 ^ 18 ≤ x) (hhigh : x ≤ 10 ^ 18) : FitsShare x := by
  have hleast : (-2 ^ 63 : ℤ) ≤ -10 ^ 18 := by norm_num
  have hgreatest : (10 ^ 18 : ℤ) < 2 ^ 63 := by norm_num
  exact ⟨hleast.trans hlow, hhigh.trans_lt hgreatest⟩

/-- The units in front of the point, when they are read. -/
theorem wholeUnits_digits {l : List Char} (h : AllDigits l) (dot : Bool) {scaled units : ℤ}
    (hunits : wholeUnits (l ++ if dot then ['.'] else []) scaled = .ok units) : units = value l * scaled := by
  by_cases hne : l = []
  · subst hne
    cases dot with
    | false =>
      have hzero : (0 : ℤ) = units := Except.ok.inj hunits
      rw [← hzero, value_nil, Nat.cast_zero, zero_mul]
    | true => exact absurd hunits (by simp [wholeUnits, stoll, bind, Except.bind])
  · rw [wholeUnits, if_neg (by simp [hne]), stoll_digits h hne, Exec.except_bind_eq_ok] at hunits
    obtain ⟨n, hn, hunits⟩ := hunits
    obtain ⟨satoshis, hsatoshis, hunits⟩ := Exec.except_bind_eq_ok.mp hunits
    obtain ⟨-, rfl⟩ := int64_eq_ok.mp hn
    obtain ⟨-, rfl⟩ := int64_eq_ok.mp hsatoshis
    obtain ⟨-, rfl⟩ := int64_eq_ok.mp hunits
    exact zero_add _

theorem wholeUnits_returns {l : List Char} (h : AllDigits l) (hne : l ≠ []) (dot : Bool) {scaled : ℤ}
    (hvalue : FitsShare (value l)) (hunits : FitsShare (value l * scaled)) :
    wholeUnits (l ++ if dot then ['.'] else []) scaled = .ok (value l * scaled) := by
  rw [wholeUnits, if_neg (by simp [hne]), stoll_digits h hne]
  refine Exec.except_bind_eq_ok.mpr ⟨_, int64_eq_ok.mpr ⟨hvalue, rfl⟩, Exec.except_bind_eq_ok.mpr ⟨_, int64_eq_ok.mpr ⟨hunits, rfl⟩, ?_⟩⟩
  rw [zero_add]
  exact int64_eq_ok.mpr ⟨hunits, rfl⟩

/-- As many decimals are allowed as the precision says. -/
theorem maxRhsSize_eq (precision : ℕ) : (toText (10 ^ precision)).tail.length = precision := by
  obtain ⟨c, l, hdigits, -, hlen, -⟩ := digits_pow_add (Nat.pow_pos (show 0 < 10 by decide) : 0 < 10 ^ precision)
  have habs : ((10 : ℤ) ^ precision).natAbs = 10 ^ precision := by
    rw [Int.natAbs_pow]
    rfl
  have hneg : ¬ (10 : ℤ) ^ precision < 0 := not_lt.mpr (by positivity)
  rw [Nat.add_zero] at hdigits
  rw [toText, if_neg hneg, habs, hdigits, List.tail_cons, hlen]

/-- What decimals are worth. The zeros that are missing are added behind them. -/
theorem value_padded (r : List Char) (n : ℕ) : value (r ++ List.replicate n '0') = value r * 10 ^ n := by
  rw [value_append, value_replicate, List.length_replicate, Nat.add_zero]

theorem addDecimals_digits {r : List Char} (h : AllDigits r) {precision : ℕ} {units satoshis : ℤ}
    (hadd : addDecimals r (10 ^ precision) units = .ok satoshis) :
    r.length ≤ precision ∧ satoshis = units + value r * 10 ^ (precision - r.length) := by
  rw [addDecimals, maxRhsSize_eq] at hadd
  by_cases hlen : r.length ≤ precision
  · rw [if_pos hlen] at hadd
    refine ⟨hlen, ?_⟩
    have hall : AllDigits (r ++ List.replicate (precision - r.length) '0') := h.append (allDigits_replicate _)
    have hvalue := value_padded r (precision - r.length)
    by_cases hne : r ++ List.replicate (precision - r.length) '0' = []
    · -- an asset without decimals
      have hsame : units = satoshis := by simpa [hne] using hadd
      have hzero : value r * 10 ^ (precision - r.length) = 0 := by rw [← hvalue, hne, value_nil]
      rw [← hsame, ← Nat.cast_ofNat, ← Nat.cast_pow, ← Nat.cast_mul, hzero, Nat.cast_zero, add_zero]
    · have hstoll := stoll_digits hall hne false
      simp only [Bool.false_eq_true, if_false, List.append_nil] at hstoll
      simp only [hne, if_false, hstoll] at hadd
      obtain ⟨n, hn, hadd⟩ := Exec.except_bind_eq_ok.mp hadd
      obtain ⟨-, rfl⟩ := int64_eq_ok.mp hn
      obtain ⟨-, rfl⟩ := int64_eq_ok.mp hadd
      rw [hvalue]
      push_cast
      rfl
  · rw [if_neg hlen] at hadd
    exact absurd hadd (by simp)

theorem addDecimals_returns {r : List Char} (h : AllDigits r) {precision : ℕ} {units : ℤ} (hlen : r.length = precision)
    (hvalue : FitsShare (value r)) (hsum : FitsShare (units + value r)) :
    addDecimals r (10 ^ precision) units = .ok (units + value r) := by
  rw [addDecimals, maxRhsSize_eq, if_pos hlen.le]
  have hpad : r ++ List.replicate (precision - r.length) '0' = r := by simp [hlen]
  simp only [hpad]
  by_cases hne : r = []
  · rw [if_pos hne, hne, value_nil, Nat.cast_zero, add_zero]
  · have hstoll := stoll_digits h hne false
    simp only [Bool.false_eq_true, if_false, List.append_nil] at hstoll
    rw [if_neg hne, hstoll]
    exact Exec.except_bind_eq_ok.mpr ⟨_, int64_eq_ok.mpr ⟨hvalue, rfl⟩, int64_eq_ok.mpr ⟨hsum, rfl⟩⟩

/-- What the decimals are worth in the smallest unit. -/
def decimalsWorth (precision : ℕ) (rhs : Option (List Char)) : ℤ :=
  (rhs.map fun r => (value r * 10 ^ (precision - r.length) : ℤ)).getD 0

/-- The end of `amount_from_string`. -/
def signedAmount (negativeFound : Bool) (satoshis : ℤ) : Except AmountError ℤ :=
  if satoshis ≤ maxShareSupply then
    if negativeFound then int64 .overflow (satoshis * -1) else .ok satoshis
  else .error .assertion

variable {precision : ℕ} {negative : Bool} {lhs : List Char} {rhs : Option (List Char)}

theorem amountFromString_plainText (hp : precision < 19) (hl : AllDigits lhs) (hr : ∀ r ∈ rhs, AllDigits r) :
    amountFromString precision (plainText negative lhs rhs) =
      (wholeUnits (lhs ++ if negative && rhs.isSome then ['.'] else []) (10 ^ precision) >>= fun units =>
        (rhs.elim (.ok units) fun r => addDecimals r (10 ^ precision) units) >>= signedAmount negative) := by
  rw [amountFromString, scanAmount_plainText hl hr]
  show (scaledPrecision precision >>= fun scaled => _) = _
  rw [scaledPrecision, if_pos hp]
  show (wholeUnits (substr (plainText negative lhs rhs) negative.toNat _) (10 ^ precision) >>= _) = _
  rw [lhs_plainText hl]
  congr 1
  funext units
  cases rhs with
  | none => rfl
  | some r =>
    show (addDecimals (substr (plainText negative lhs (some r)) _ none) (10 ^ precision) units >>= _) = _
    rw [rhs_plainText hl]
    rfl

theorem signedAmount_eq_ok {satoshis x : ℤ} (h : signedAmount negative satoshis = .ok x) :
    x = if negative then -satoshis else satoshis := by
  rw [signedAmount] at h
  by_cases hmax : satoshis ≤ maxShareSupply
  · rw [if_pos hmax] at h
    cases negative with
    | false => exact (Except.ok.inj h).symm
    | true =>
      obtain ⟨-, rfl⟩ := int64_eq_ok.mp h
      exact Int.mul_neg_one satoshis
  · rw [if_neg hmax] at h
    exact absurd h (by simp)

/-- What a text is read as, if it is accepted. -/
theorem amountFromString_eq (hp : precision < 19) (hl : AllDigits lhs) (hr : ∀ r ∈ rhs, AllDigits r) {x : ℤ}
    (h : amountFromString precision (plainText negative lhs rhs) = .ok x) :
    (∀ r ∈ rhs, r.length ≤ precision) ∧
      x = (if negative then -1 else 1) * (value lhs * 10 ^ precision + decimalsWorth precision rhs) := by
  rw [amountFromString_plainText hp hl hr] at h
  obtain ⟨units, hunits, hrest⟩ := Exec.except_bind_eq_ok.mp h
  obtain ⟨satoshis, hsatoshis, hend⟩ := Exec.except_bind_eq_ok.mp hrest
  have hsign : x = (if negative then -1 else 1) * satoshis := by
    rw [signedAmount_eq_ok hend]
    cases negative <;> simp
  rw [wholeUnits_digits hl _ hunits] at hsatoshis
  cases rhs with
  | none =>
    obtain rfl : value lhs * 10 ^ precision = satoshis := Except.ok.inj hsatoshis
    refine ⟨fun r hr => absurd hr (by simp), ?_⟩
    rw [hsign]
    show _ = _ * (_ + 0)
    rw [add_zero]
  | some r =>
    obtain ⟨hlen, rfl⟩ := addDecimals_digits (hr r rfl) hsatoshis
    exact ⟨fun r' hr' => Option.some.inj hr' ▸ hlen, hsign⟩

/-- The number that a text denotes, in units of the asset. -/
def denoted (negative : Bool) (lhs : List Char) (rhs : Option (List Char)) : ℚ :=
  (if negative then -1 else 1) * (value lhs + (rhs.map fun r => (value r / 10 ^ r.length : ℚ)).getD 0)

/-- **A text that is accepted denotes what is returned.** -/
theorem amountFromString_denotes (hp : precision < 19) (hl : AllDigits lhs) (hr : ∀ r ∈ rhs, AllDigits r) {x : ℤ}
    (h : amountFromString precision (plainText negative lhs rhs) = .ok x) :
    (x : ℚ) / 10 ^ precision = denoted negative lhs rhs := by
  obtain ⟨hlen, rfl⟩ := amountFromString_eq hp hl hr h
  have hscale : (10 : ℚ) ^ precision ≠ 0 := pow_ne_zero _ (by decide)
  have hworth : (decimalsWorth precision rhs : ℚ) / 10 ^ precision =
      (rhs.map fun r => (value r / 10 ^ r.length : ℚ)).getD 0 := by
    cases rhs with
    | none => simp [decimalsWorth]
    | some r =>
      have hsplit : (10 : ℚ) ^ precision = 10 ^ (precision - r.length) * 10 ^ r.length := by
        rw [← pow_add, Nat.sub_add_cancel (hlen r rfl)]
      simp only [decimalsWorth, Option.map_some, Option.getD_some]
      push_cast
      rw [hsplit]
      field_simp
  have hunits : (value lhs : ℚ) * 10 ^ precision / 10 ^ precision = value lhs := mul_div_cancel_right₀ _ hscale
  rw [denoted, ← hworth]
  push_cast
  rw [mul_div_assoc, add_div, hunits]

/-! ### Writing -/

theorem scaleOf_eq (precision : ℕ) (hp : precision < 19) : scaleOf precision = .ok (10 ^ precision) := by
  induction precision with
  | zero => rfl
  | succ precision ih =>
    rw [scaleOf, ih (Nat.lt_of_succ_lt hp)]
    rw [amountBind_ok, ← pow_succ, int64_eq_ok]
    have hle : (10 : ℤ) ^ (precision + 1) ≤ 10 ^ 18 := pow_le_pow_right₀ (by decide) (Nat.le_of_lt_succ hp)
    have hpos : (0 : ℤ) < 10 ^ (precision + 1) := by positivity
    exact ⟨fitsShare_of_le (le_trans (by norm_num) hpos.le) hle, rfl⟩

theorem toText_natCast (n : ℕ) : toText n = digits n := by
  rw [toText, if_neg (not_lt.mpr (Int.natCast_nonneg n)), Int.natAbs_natCast]

theorem toText_neg_natCast (n : ℕ) : toText (-n) = (if decide (0 < n) then ['-'] else []) ++ digits n := by
  by_cases hn : 0 < n
  · have hneg : (-n : ℤ) < 0 := by omega
    rw [toText, if_pos hneg, Int.natAbs_neg, Int.natAbs_natCast]
    simp [hn]
  · obtain rfl : n = 0 := Nat.eq_zero_of_not_pos hn
    rfl

/-- How an amount is written that is not negative. -/
theorem amountToString_natCast (hp : precision < 19) (n : ℕ) :
    amountToString precision n = .ok (plainText false (digits (n / 10 ^ precision))
      (if n % 10 ^ precision = 0 then none else some (digits (10 ^ precision + n % 10 ^ precision)).tail)) := by
  have hscale : (10 : ℤ) ^ precision = (10 ^ precision : ℕ) := by push_cast; rfl
  rw [amountToString, scaleOf_eq precision hp, amountBind_ok, hscale, ← Int.ofNat_tdiv, ← Int.ofNat_tmod]
  simp only [toText_natCast, ← Int.natCast_add]
  by_cases hrest : n % 10 ^ precision = 0
  · simp [hrest, plainText]
  · have hcast : ((n % 10 ^ precision : ℕ) : ℤ) ≠ 0 := by exact_mod_cast hrest
    rw [if_pos hcast, if_neg hrest]
    rfl

/-- How a negative amount is written. The decimals are those of what is missing to the next unit. -/
theorem amountToString_neg_natCast (hp : precision < 19) (n : ℕ) :
    amountToString precision (-n) = .ok (plainText (0 < n / 10 ^ precision) (digits (n / 10 ^ precision))
      (if n % 10 ^ precision = 0 then none else some (digits (10 ^ precision - n % 10 ^ precision)).tail)) := by
  have hscale : (10 : ℤ) ^ precision = (10 ^ precision : ℕ) := by push_cast; rfl
  have hlt : n % 10 ^ precision < 10 ^ precision := Nat.mod_lt _ (Nat.pow_pos (by decide))
  rw [amountToString, scaleOf_eq precision hp, amountBind_ok, hscale, Int.neg_tdiv, Int.neg_tmod, ← Int.ofNat_tdiv,
    ← Int.ofNat_tmod]
  by_cases hrest : n % 10 ^ precision = 0
  · simp only [hrest, toText_neg_natCast]
    simp [plainText]
  · have hcast : -((n % 10 ^ precision : ℕ) : ℤ) ≠ 0 := by
      rw [neg_ne_zero]
      exact_mod_cast hrest
    have hmissing : ((10 ^ precision : ℕ) : ℤ) + -((n % 10 ^ precision : ℕ) : ℤ) =
        ((10 ^ precision - n % 10 ^ precision : ℕ) : ℤ) := by
      rw [Nat.cast_sub hlt.le]
      rfl
    simp only [if_pos hcast, if_neg hrest, hmissing, toText_neg_natCast, toText_natCast]
    simp [plainText]

/-! ### Round trips -/

/-- A text with all decimals is read, when the amount is not too large. -/
theorem amountFromString_returns (hp : precision < 19) (hl : AllDigits lhs) (hne : lhs ≠ [])
    (hr : ∀ r ∈ rhs, AllDigits r ∧ r.length = precision)
    (hmax : value lhs * 10 ^ precision + decimalsWorth precision rhs ≤ maxShareSupply) :
    amountFromString precision (plainText negative lhs rhs) =
      .ok ((if negative then -1 else 1) * (value lhs * 10 ^ precision + decimalsWorth precision rhs)) := by
  have hworth : 0 ≤ decimalsWorth precision rhs := by
    cases rhs with
    | none => exact le_rfl
    | some r => exact mul_nonneg (Int.natCast_nonneg _) (by positivity)
  have hscale : (1 : ℤ) ≤ 10 ^ precision := one_le_pow₀ (by decide)
  have hunits : (0 : ℤ) ≤ value lhs * 10 ^ precision := mul_nonneg (Int.natCast_nonneg _) (by positivity)
  have hvalue : (value lhs : ℤ) ≤ value lhs * 10 ^ precision :=
    le_mul_of_one_le_right (Int.natCast_nonneg _) hscale
  have hfits : ∀ x : ℤ, 0 ≤ x → x ≤ value lhs * 10 ^ precision + decimalsWorth precision rhs → FitsShare x :=
    fun x hx hle => fitsShare_of_le (le_trans (by norm_num) hx) (hle.trans hmax)
  rw [amountFromString_plainText hp hl fun r h => (hr r h).1]
  refine Exec.except_bind_eq_ok.mpr ⟨_, wholeUnits_returns hl hne _
    (hfits _ (Int.natCast_nonneg _) (by linarith)) (hfits _ hunits (by linarith)), ?_⟩
  refine Exec.except_bind_eq_ok.mpr ⟨value lhs * 10 ^ precision + decimalsWorth precision rhs, ?_, ?_⟩
  · cases rhs with
    | none => exact congrArg Except.ok (add_zero _).symm
    | some r =>
      obtain ⟨hall, hlen⟩ := hr r rfl
      have hsame : decimalsWorth precision (some r) = value r := by simp [decimalsWorth, hlen]
      rw [hsame] at hfits ⊢
      exact addDecimals_returns hall hlen (hfits _ (Int.natCast_nonneg _) (by linarith))
        (hfits _ (by linarith [Int.natCast_nonneg (value r)]) le_rfl)
  · rw [signedAmount, if_pos hmax]
    cases negative with
    | false => simp
    | true =>
      have hneg : FitsShare ((value lhs * 10 ^ precision + decimalsWorth precision rhs) * -1) := by
        refine fitsShare_of_le ?_ (le_trans (by linarith) (show (0 : ℤ) ≤ 10 ^ 18 by norm_num))
        rw [show maxShareSupply = 10 ^ 18 from rfl] at hmax
        linarith
      refine int64_eq_ok.mpr ⟨hneg, ?_⟩
      show _ * -1 = -1 * _
      ring

/-- The amount is written and read again. -/
def RoundTrip (precision : ℕ) (a : ℤ) : Prop := (amountToString precision a >>= amountFromString precision) = .ok a

instance (precision : ℕ) (a : ℤ) : Decidable (RoundTrip precision a) :=
  inferInstanceAs (Decidable (_ = _))

theorem roundTrip_natCast (hp : precision < 19) {n : ℕ} (hmax : (n : ℤ) ≤ maxShareSupply) : RoundTrip precision n := by
  have hlt : n % 10 ^ precision < 10 ^ precision := Nat.mod_lt _ (Nat.pow_pos (by decide))
  obtain ⟨c, l, hdigits, hall, hlen, hvalue⟩ := digits_pow_add hlt
  have hsum : (value (digits (n / 10 ^ precision)) : ℤ) * 10 ^ precision + decimalsWorth precision
      (if n % 10 ^ precision = 0 then none else some (digits (10 ^ precision + n % 10 ^ precision)).tail) = n := by
    have hdiv : n / 10 ^ precision * 10 ^ precision + n % 10 ^ precision = n := Nat.div_add_mod' n _
    have hworth : decimalsWorth precision
        (if n % 10 ^ precision = 0 then none else some (digits (10 ^ precision + n % 10 ^ precision)).tail) =
          (n % 10 ^ precision : ℕ) := by
      by_cases hrest : n % 10 ^ precision = 0
      · rw [if_pos hrest, hrest]
        rfl
      · rw [if_neg hrest, hdigits, List.tail_cons]
        simp [decimalsWorth, hlen, hvalue]
    rw [value_digits, hworth]
    exact_mod_cast hdiv
  rw [RoundTrip, amountToString_natCast hp, amountBind_ok, amountFromString_returns hp (allDigits_digits _)
    (digits_ne_nil _) _ (hsum.trans_le hmax), hsum]
  · simp
  · intro r hr
    by_cases hrest : n % 10 ^ precision = 0
    · rw [if_pos hrest] at hr
      exact absurd hr (by simp)
    · rw [if_neg hrest, hdigits, List.tail_cons] at hr
      obtain rfl : l = r := Option.some.inj hr
      exact ⟨hall, hlen⟩

/-- Negative amounts survive if they are whole numbers of units. -/
theorem roundTrip_neg_units (hp : precision < 19) {n : ℕ} (hpos : 0 < n) (hunits : n % 10 ^ precision = 0)
    (hmax : (n : ℤ) ≤ maxShareSupply) : RoundTrip precision (-n) := by
  have hdiv : n / 10 ^ precision * 10 ^ precision = n := Nat.div_mul_cancel (Nat.dvd_of_mod_eq_zero hunits)
  have hq : 0 < n / 10 ^ precision := Nat.pos_of_ne_zero fun hzero => by
    rw [hzero, Nat.zero_mul] at hdiv
    exact absurd hpos (by rw [← hdiv]; exact lt_irrefl 0)
  have hsum : (value (digits (n / 10 ^ precision)) : ℤ) * 10 ^ precision + decimalsWorth precision none = n := by
    show _ + 0 = _
    rw [value_digits, add_zero]
    exact_mod_cast hdiv
  rw [RoundTrip, amountToString_neg_natCast hp, amountBind_ok, if_pos hunits, amountFromString_returns hp
    (allDigits_digits _) (digits_ne_nil _) (fun r hr => absurd hr (by simp)) (hsum.trans_le hmax), hsum]
  simp [hq]

/-- No number and what is missing from it to a power of ten have the same digits, but for the first one of the second. -/
theorem decimals_ne_missing {w k d r : ℕ} (hk : k < w) (hd : 0 < d) (hd10 : d < 10) :
    r * 10 ^ (w - k) + (d * 10 ^ k + r) ≠ 10 ^ w := by
  intro h
  obtain ⟨m, hm⟩ : ∃ m, w - k = m + 1 := ⟨w - k - 1, by omega⟩
  have hsplit : 10 ^ w = 10 ^ (m + 1) * 10 ^ k := by rw [← pow_add, ← hm, Nat.sub_add_cancel hk.le]
  have hlarge : 10 ≤ 10 ^ (m + 1) := Nat.le_self_pow (Nat.succ_ne_zero m) 10
  rw [hm, hsplit] at h
  have hfactor : r * (10 ^ (m + 1) + 1) = 10 ^ k * (10 ^ (m + 1) - d) := by
    have hcomm : d * 10 ^ k = 10 ^ k * d := Nat.mul_comm _ _
    have hcomm' : 10 ^ (m + 1) * 10 ^ k = 10 ^ k * 10 ^ (m + 1) := Nat.mul_comm _ _
    rw [Nat.mul_sub, Nat.mul_add, Nat.mul_one]
    omega
  -- a power of ten and one more have no common factor with ten
  have hcoprime : Nat.Coprime (10 ^ (m + 1) + 1) (10 ^ k) := by
    apply Nat.Coprime.pow_right
    rw [pow_succ, Nat.mul_comm, Nat.coprime_mul_left_add_left]
    exact Nat.coprime_one_left 10
  have hdvd : 10 ^ (m + 1) + 1 ∣ 10 ^ (m + 1) - d := hcoprime.dvd_of_dvd_mul_left ⟨r, by rw [← hfactor, Nat.mul_comm]⟩
  have hle := Nat.le_of_dvd (by omega) hdvd
  omega

/-- **No other negative amount survives.** -/
theorem not_roundTrip_neg (hp : precision < 19) {n : ℕ} (hrest : n % 10 ^ precision ≠ 0) :
    ¬ RoundTrip precision (-n) := by
  intro h
  have hpos : 0 < n := Nat.pos_of_ne_zero fun hzero => hrest (by rw [hzero, Nat.zero_mod])
  have hlt : n % 10 ^ precision < 10 ^ precision := Nat.mod_lt _ (Nat.pow_pos (by decide))
  have hdiv : n / 10 ^ precision * 10 ^ precision + n % 10 ^ precision = n := Nat.div_add_mod' n _
  -- the decimals that are written are those of `10 ^ precision - n % 10 ^ precision`, without the first digit
  obtain ⟨c, l, hdigits, hall, hc, hc10, hmissing⟩ := digits_eq_cons (Nat.sub_pos_of_lt hlt)
  have hshort : l.length < precision := by
    apply (Nat.pow_lt_pow_iff_right (show 1 < 10 by decide)).mp
    calc 10 ^ l.length ≤ digitValue c * 10 ^ l.length := Nat.le_mul_of_pos_left _ hc
      _ ≤ 10 ^ precision - n % 10 ^ precision := by rw [hmissing]; exact Nat.le_add_right _ _
      _ < 10 ^ precision := Nat.sub_lt (Nat.pow_pos (by decide)) (Nat.pos_of_ne_zero hrest)
  rw [RoundTrip, amountToString_neg_natCast hp, amountBind_ok, if_neg hrest, hdigits, List.tail_cons] at h
  obtain ⟨-, hread⟩ := amountFromString_eq hp (allDigits_digits _) (fun r hr => Option.some.inj hr ▸ hall) h
  have hworth : decimalsWorth precision (some l) = (value l * 10 ^ (precision - l.length) : ℕ) := by
    simp [decimalsWorth]
  rw [value_digits, hworth] at hread
  by_cases hq : 0 < n / 10 ^ precision
  · -- the units are right, so the decimals would have to be
    have hsame : n = n / 10 ^ precision * 10 ^ precision + value l * 10 ^ (precision - l.length) := by
      simp only [hq, decide_true, if_true] at hread
      rw [neg_one_mul, neg_inj] at hread
      exact_mod_cast hread
    have hdecimals : value l * 10 ^ (precision - l.length) = n % 10 ^ precision := by omega
    apply decimals_ne_missing hshort hc hc10 (r := value l)
    omega
  · -- there is no sign
    simp only [hq, decide_false, Bool.false_eq_true, if_false, one_mul] at hread
    have hnonneg : (0 : ℤ) ≤ -n := by
      rw [hread]
      positivity
    omega

/-- **Amounts as text.** An amount survives exactly if it is not negative or a whole number of units. A text in the form
`[-]digits[.digits]` that is accepted denotes what is returned, with the smallest unit that the precision allows. -/
theorem amount_strings (precision : ℕ) (hp : precision ≤ 12) :
    (∀ a : ℤ, |a| ≤ maxShareSupply → (RoundTrip precision a ↔ 0 ≤ a ∨ (10 : ℤ) ^ precision ∣ a)) ∧
      ∀ negative lhs rhs, AllDigits lhs → (∀ r ∈ rhs, AllDigits r) →
        ∀ x, amountFromString precision (plainText negative lhs rhs) = .ok x →
          (x : ℚ) / 10 ^ precision = denoted negative lhs rhs := by
  have hp' : precision < 19 := by omega
  refine ⟨fun a ha => ?_, fun negative lhs rhs hl hr x h => amountFromString_denotes hp' hl hr h⟩
  rcases Int.eq_nat_or_neg a with ⟨n, rfl | rfl⟩
  · have hmax : (n : ℤ) ≤ maxShareSupply := (le_abs_self _).trans ha
    exact iff_of_true (roundTrip_natCast hp' hmax) (.inl (Int.natCast_nonneg n))
  · have hmax : (n : ℤ) ≤ maxShareSupply := by rwa [abs_neg, Nat.abs_cast] at ha
    have hdvd : (10 : ℤ) ^ precision ∣ -n ↔ n % 10 ^ precision = 0 := by
      rw [dvd_neg, ← Nat.dvd_iff_mod_eq_zero]
      exact_mod_cast Iff.rfl
    rcases Nat.eq_zero_or_pos n with rfl | hpos
    · exact iff_of_true (roundTrip_natCast hp' hmax) (.inl le_rfl)
    · rw [hdvd]
      by_cases hunits : n % 10 ^ precision = 0
      · exact iff_of_true (roundTrip_neg_units hp' hpos hunits hmax) (.inr hunits)
      · refine iff_of_false (not_roundTrip_neg hp' hunits) ?_
        rintro (hnonneg | hzero)
        · omega
        · exact hunits hzero

/-- With two decimals, `1.50` survives, and `-1.5` is read as what it denotes. -/
theorem amount_strings_two : RoundTrip 2 150 ∧ amountFromString 2 (plainText true ['1'] (some ['5'])) = .ok (-150) ∧
    ((-150 : ℤ) : ℚ) / 10 ^ 2 = denoted true ['1'] (some ['5']) := by
  obtain ⟨hround, hdenotes⟩ := amount_strings 2 (by decide)
  have hread : amountFromString 2 (plainText true ['1'] (some ['5'])) = .ok (-150) := by decide
  refine ⟨(hround 150 (by decide)).mpr (.inl (by decide)), hread, ?_⟩
  exact hdenotes true ['1'] (some ['5']) (by simp [AllDigits]) (by simp [AllDigits]) (-150) hread

/-- With two decimals, `-1.50` is written as `-1.0`. -/
theorem not_roundTrip_two : amountToString 2 (-150) = .ok "-1.0".toList ∧
    amountFromString 2 "-1.0".toList = .ok (-100) ∧ ¬ RoundTrip 2 (-150) := by
  decide

end FinChain.Chain
