import LiveMarkup.Number.Text

/-!
# Property keys

A property is addressed by a name or by an index.  A text that is the canonical decimal form of an
index addresses that index, so `list["0"]` and `list[0]` are one place.
-/

namespace LiveMarkup

/-- The key of a property. -/
inductive Key where
  /-- A name that is not the canonical form of an index. -/
  | name (text : String)
  /-- A position. -/
  | index (position : Nat)
  deriving DecidableEq, Hashable, Repr, Inhabited

namespace Key

/-- The greatest index: indices are words of 64 bits. -/
def maxIndex : Nat := 18446744073709551615

/-- The name under which arrays show their number of items. -/
def length : Key := name "length"

/-- The index that a text is the canonical decimal form of: digits without a leading zero. -/
def canonicalIndex? (text : List Char) : Option Nat :=
  if text ≠ [] ∧ text.all Char.isDigit ∧ (text = ['0'] ∨ text.head? ≠ some '0') then
    let position := Decimal.digitsValue text
    if position ≤ maxIndex then some position else none
  else none

/-- The key that a text addresses. -/
def ofText (text : String) : Key :=
  match canonicalIndex? text.toList with
  | some position => index position
  | none => name text

/-- The index that a number addresses: it is integral and not below zero.  One beyond the greatest
index, which only `2 ^ 64` may be, addresses the greatest. -/
def ofNumber? (x : Float) : Option Key :=
  let value := Exact.ofFloat x
  match value.natural? with
  | some position =>
      if value.isNegative = false ∧ position ≤ maxIndex + 1 then some (index (min position maxIndex))
      else none
  | none => none

/-- The text of a key. -/
def text : Key → String
  | name text => text
  | index position => String.ofList (Decimal.naturalText position)

/-- Whether the key is the one that shows an array's number of items. -/
def isLength (key : Key) : Bool := key == length

end Key

end LiveMarkup
