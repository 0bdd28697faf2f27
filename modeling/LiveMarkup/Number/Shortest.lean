import LiveMarkup.Number.Exact

/-!
# The fewest digits that identify a double

A double stands for every real number that rounds to it: an interval around its value, which
contains its ends exactly when the mantissa is even.  `Decimal.shortest` finds a decimal of this
interval with as few digits as possible and, among those, the one nearest to the value.
-/

namespace LiveMarkup

/-- The number `digits * 10 ^ exponent`. -/
structure Decimal where
  /-- The digits, read as one natural number. -/
  digits : Nat
  /-- The power of ten they are multiplied with. -/
  exponent : Int
  deriving DecidableEq, Repr

namespace Decimal

/-- Compares `left * 10 ^ tens` with `right * 2 ^ twos` exactly. -/
def compareScaled (left : Nat) (tens : Int) (right : Nat) (twos : Int) : Ordering :=
  compare (left * Nat.pow 10 tens.toNat * Nat.pow 2 (-twos).toNat)
    (right * Nat.pow 2 twos.toNat * Nat.pow 10 (-tens).toNat)

/-- Whether a decimal rounds to the double `mantissa * 2 ^ exponent`.  Below a power of two the next
double is only half as far away as above it, except at the least exponent. -/
def roundsTo (decimal : Decimal) (mantissa : Nat) (exponent : Int) : Bool :=
  let low :=
    if mantissa = Nat.pow 2 52 ∧ exponent > -1074 then 4 * mantissa - 1 else 4 * mantissa - 2
  let high := 4 * mantissa + 2
  let ends := mantissa % 2 == 0
  let aboveLow := compareScaled decimal.digits decimal.exponent low (exponent - 2)
  let belowHigh := compareScaled decimal.digits decimal.exponent high (exponent - 2)
  (aboveLow == .gt || (ends && aboveLow == .eq)) && (belowHigh == .lt || (ends && belowHigh == .eq))

/-- The greatest multiple of `10 ^ step` that is at most `mantissa * 2 ^ exponent`, counted in such
steps. -/
def stepsBelow (mantissa : Nat) (exponent step : Int) : Nat :=
  mantissa * Nat.pow 2 exponent.toNat * Nat.pow 10 (-step).toNat /
    (Nat.pow 2 (-exponent).toNat * Nat.pow 10 step.toNat)

/-- The multiple of `10 ^ step` that rounds to the double, if one of the two neighbours of its value
does.  Where both do, the nearer one is taken, and the upper one of two equally near. -/
def onGrid? (mantissa : Nat) (exponent step : Int) : Option Decimal :=
  let below : Decimal := ⟨stepsBelow mantissa exponent step, step⟩
  let above : Decimal := ⟨below.digits + 1, step⟩
  match below.roundsTo mantissa exponent, above.roundsTo mantissa exponent with
  | true, true =>
      if compareScaled (below.digits + above.digits) step mantissa (exponent + 1) == .gt
      then some below else some above
  | true, false => some below
  | false, true => some above
  | false, false => none

/-- A power of ten above `mantissa * 2 ^ exponent`, at most two places too high, from the number of
binary digits: `0.30103` is a little more than the decimal logarithm of two. -/
def placesBound (mantissa : Nat) (exponent : Int) : Int :=
  (exponent + mantissa.log2 + 1) * 30103 / 100000 + 1

/-- Drops trailing zeros, at most `fuel` of them. -/
def trimZeros : Nat → Decimal → Decimal
  | 0, decimal => decimal
  | fuel + 1, decimal =>
      if decimal.digits % 10 = 0 ∧ decimal.digits ≠ 0
      then trimZeros fuel ⟨decimal.digits / 10, decimal.exponent + 1⟩ else decimal

/-- The value itself as a decimal with all its digits. -/
def allDigits (mantissa : Nat) (exponent : Int) : Decimal :=
  if 0 ≤ exponent then ⟨mantissa * Nat.pow 2 exponent.toNat, 0⟩
  else ⟨mantissa * Nat.pow 5 (-exponent).toNat, exponent⟩

/-- The fewest digits that round to `mantissa * 2 ^ exponent`.  The grids are tried from coarse to
fine; twenty of them suffice, as seventeen digits always identify a double, and if none of them held
a candidate the value itself would be taken. -/
def shortest (mantissa : Nat) (exponent : Int) : Decimal :=
  let places := placesBound mantissa exponent
  let found := (List.range 20).findSome? fun (digits : Nat) =>
    onGrid? mantissa exponent (places - digits)
  let decimal := found.getD (allDigits mantissa exponent)
  trimZeros (Nat.toDigits 10 decimal.digits).length decimal

end Decimal

end LiveMarkup
