/-!
# Doubles seen exactly

A double is read off its bits as a sign, a mantissa and a power of two, so that questions about it
(is it an integer, what is the remainder of two of them, which decimals round to it) become
questions about natural numbers.  `Exact.toFloat` packs a representable value again.
-/

namespace LiveMarkup

/-- What a double stands for. -/
inductive Exact where
  /-- No number at all. -/
  | nan
  /-- One of the two infinities. -/
  | infinite (negative : Bool)
  /-- The value `mantissa * 2 ^ exponent` with its sign; zero has two signs. -/
  | finite (negative : Bool) (mantissa : Nat) (exponent : Int)
  deriving DecidableEq, Repr

namespace Exact

/-- Reads the sign bit, the eleven exponent bits and the fifty-two mantissa bits. -/
def ofBits (bits : UInt64) : Exact :=
  let word := bits.toNat
  let negative := word / Nat.pow 2 63 == 1
  let exponent : Nat := word / Nat.pow 2 52 % Nat.pow 2 11
  let fraction : Nat := word % Nat.pow 2 52
  if exponent = Nat.pow 2 11 - 1 then
    if fraction = 0 then infinite negative else nan
  else if exponent = 0 then finite negative fraction (-1074)
  else finite negative (Nat.pow 2 52 + fraction) ((exponent : Int) - 1075)

/-- The exact view of a double. -/
def ofFloat (x : Float) : Exact := ofBits x.toBits

/-- The magnitude of an integral value; `none` for a fraction, an infinity or no number. -/
def natural? : Exact → Option Nat
  | finite _ mantissa exponent =>
      if 0 ≤ exponent then some (mantissa * Nat.pow 2 exponent.toNat)
      else
        let unit := Nat.pow 2 (-exponent).toNat
        if mantissa % unit = 0 then some (mantissa / unit) else none
  | _ => none

/-- Whether the value is below zero.  A zero of either sign is not. -/
def isNegative : Exact → Bool
  | nan => false
  | infinite negative => negative
  | finite negative mantissa _ => negative && mantissa != 0

/-- The integer that the value is, if it is one. -/
def integer? (value : Exact) : Option Int :=
  value.natural?.map fun magnitude => if value.isNegative then -(magnitude : Int) else magnitude

/-- The bits of `mantissa * 2 ^ exponent` without its sign, for a mantissa below `2 ^ 53` and a
value that a double can hold.  The mantissa is moved up until its top bit is the implicit one or the
least exponent is reached. -/
def magnitudeBits (mantissa : Nat) (exponent : Int) : Nat :=
  if mantissa = 0 then 0
  else
    let shift := min (52 - mantissa.log2) (exponent + 1074).toNat
    let shifted := mantissa * Nat.pow 2 shift
    if shifted < Nat.pow 2 52 then shifted
    else (exponent - shift + 1075).toNat * Nat.pow 2 52 + (shifted - Nat.pow 2 52)

/-- The double with this exact value. -/
def toFloat : Exact → Float
  | nan => Float.ofBits 0x7ff8000000000000
  | infinite negative => Float.ofBits (if negative then 0xfff0000000000000 else 0x7ff0000000000000)
  | finite negative mantissa exponent =>
      let sign := if negative then Nat.pow 2 63 else 0
      Float.ofBits (UInt64.ofNat (sign + magnitudeBits mantissa exponent))

/-- The remainder of a division that is cut off toward zero: it is smaller than the divisor and has
the sign of the dividend.  It is exact, since the remainder of two doubles is again a double. -/
def remainder : Exact → Exact → Exact
  | nan, _ | _, nan | infinite _, _ => nan
  | finite negative mantissa exponent, infinite _ => finite negative mantissa exponent
  | finite negative mantissa exponent, finite _ divisor scale =>
      if divisor = 0 then nan
      else
        let unit := min exponent scale
        let left := mantissa * Nat.pow 2 (exponent - unit).toNat
        let right := divisor * Nat.pow 2 (scale - unit).toNat
        finite negative (left % right) unit

end Exact

/-- The remainder of two doubles. -/
def floatRemainder (dividend divisor : Float) : Float :=
  ((Exact.ofFloat dividend).remainder (Exact.ofFloat divisor)).toFloat

end LiveMarkup
