import LiveMarkup.Number.Shortest

/-!
# Numbers as text

Numbers are written positionally, never with an exponent.  There are two forms: the numeral form,
which names every double (`-0`, `inf`), and the display form that templates see (`0`, `Infinity`).
Reading accepts a sign, digits with an optional point, an optional exponent and the words for
infinity and for no number.
-/

namespace LiveMarkup

namespace Decimal

/-- The digits of a natural number in base ten. -/
def naturalText (n : Nat) : List Char := Nat.toDigits 10 n

/-- Writes a decimal with a point where it needs one and a zero before a leading point. -/
def positional (decimal : Decimal) : List Char :=
  let digits := naturalText decimal.digits
  if 0 ≤ decimal.exponent then digits ++ List.replicate decimal.exponent.toNat '0'
  else
    let places := (-decimal.exponent).toNat
    if places < digits.length then
      digits.take (digits.length - places) ++ '.' :: digits.drop (digits.length - places)
    else '0' :: '.' :: (List.replicate (places - digits.length) '0' ++ digits)

end Decimal

/-- Puts a minus sign before the text of a magnitude. -/
def signed (negative : Bool) (magnitude : List Char) : List Char :=
  if negative then '-' :: magnitude else magnitude

namespace Exact

/-- The numeral form: the fewest digits that read back as the same double. -/
def numeral : Exact → List Char
  | nan => "NaN".toList
  | infinite negative => signed negative "inf".toList
  | finite negative mantissa exponent =>
      signed negative
        (if mantissa = 0 then ['0'] else (Decimal.shortest mantissa exponent).positional)

/-- The display form: zero has no sign, integral values below `10 ^ 21` show all their digits, and
other values the fewest that identify them. -/
def display : Exact → List Char
  | nan => "NaN".toList
  | infinite negative => signed negative "Infinity".toList
  | value@(finite negative mantissa exponent) =>
      match value.natural? with
      | some 0 => ['0']
      | some magnitude =>
          signed negative
            (if magnitude < Nat.pow 10 21 then Decimal.naturalText magnitude
             else (Decimal.shortest mantissa exponent).positional)
      | none => signed negative (Decimal.shortest mantissa exponent).positional

end Exact

/-- The numeral form of a double. -/
def numeralText (x : Float) : String := String.ofList (Exact.ofFloat x).numeral

/-- The display form of a double. -/
def displayNumber (x : Float) : String := String.ofList (Exact.ofFloat x).display

/-! ## Reading -/

namespace Decimal

/-- The value of a row of digits. -/
def digitsValue (digits : List Char) : Nat :=
  digits.foldl (fun value digit => value * 10 + (digit.toNat - '0'.toNat)) 0

/-- The double nearest to a decimal.  Values far outside the range of doubles are decided by their
number of places, so that no large power is computed. -/
def toFloat (decimal : Decimal) : Float :=
  if decimal.digits = 0 then 0
  else
    let top := (naturalText decimal.digits).length + decimal.exponent
    if top > 400 then Float.ofBits 0x7ff0000000000000
    else if top < -400 then 0
    else Float.ofScientific decimal.digits (decimal.exponent < 0) decimal.exponent.natAbs

/-- An exponent: its mark, an optional sign and digits up to the end of the text. -/
def readExponent? : List Char → Option Int
  | [] => some 0
  | mark :: rest =>
      let (negative, digits) := match rest with
        | '-' :: digits => (true, digits)
        | '+' :: digits => (false, digits)
        | digits => (false, digits)
      if (mark = 'e' ∨ mark = 'E') ∧ digits ≠ [] ∧ digits.all Char.isDigit then
        some (if negative then -(digitsValue digits : Int) else digitsValue digits)
      else none

/-- An unsigned decimal: digits on at least one side of an optional point, then an optional
exponent. -/
def read? (text : List Char) : Option Decimal :=
  let whole := text.takeWhile Char.isDigit
  let afterWhole := text.dropWhile Char.isDigit
  let (fraction, afterFraction) := match afterWhole with
    | '.' :: rest => (rest.takeWhile Char.isDigit, rest.dropWhile Char.isDigit)
    | rest => ([], rest)
  if whole ++ fraction = [] then none
  else (readExponent? afterFraction).map fun exponent =>
    ⟨digitsValue (whole ++ fraction), exponent - fraction.length⟩

end Decimal

/-- The magnitude that a text without a sign names. -/
def readMagnitude? (text : List Char) : Option Float :=
  let lower := text.map Char.toLower
  if lower = "inf".toList ∨ lower = "infinity".toList then some (Float.ofBits 0x7ff0000000000000)
  else if lower = "nan".toList then some (Float.ofBits 0x7ff8000000000000)
  else (Decimal.read? text).map Decimal.toFloat

/-- Reads a number with an optional sign.  There is no other base, no digit separator and no blank
inside. -/
def readNumber? : List Char → Option Float
  | '-' :: rest => (readMagnitude? rest).map fun magnitude => -magnitude
  | '+' :: rest => readMagnitude? rest
  | text => readMagnitude? text

end LiveMarkup
