import LiveMarkup.Heap.Watch

/-!
# Operators

What the operators of expressions compute.  Those that read arrays are reads like any other.
-/

namespace LiveMarkup

namespace Heap

/-- Applies arithmetic to two values as numbers. -/
def arithmetic (heap : Heap) (op : Float → Float → Float) (left right : Value) : Watch Value := do
  let x ← heap.toNumber left
  let y ← heap.toNumber right
  return .number (op x y)

/-- Whether a value turns a sum into a concatenation. -/
def concatenates : Value → Bool
  | .text _ | .container _ => true
  | _ => false

/-- The sum of two numbers, or the concatenation of two texts if one operand is a text or a
container. -/
def add (heap : Heap) (left right : Value) : Watch Value := do
  if concatenates left || concatenates right then
    let first ← heap.display left
    let second ← heap.display right
    return .text (first ++ second)
  else heap.arithmetic (· + ·) left right

/-- Compares two texts by their characters, and other values as numbers. -/
def compareBy (heap : Heap) (texts : String → String → Bool) (numbers : Float → Float → Bool)
    (left right : Value) : Watch Value := do
  match left, right with
  | .text first, .text second => return .bool (texts first second)
  | left, right =>
      let x ← heap.toNumber left
      let y ← heap.toNumber right
      return .bool (numbers x y)

/-- What a binary operator computes. -/
def binary (heap : Heap) : BinaryOp → Value → Value → Watch Value
  | .add, left, right => heap.add left right
  | .sub, left, right => heap.arithmetic (· - ·) left right
  | .mul, left, right => heap.arithmetic (· * ·) left right
  | .div, left, right => heap.arithmetic (· / ·) left right
  | .rem, left, right => heap.arithmetic floatRemainder left right
  | .less, left, right =>
      heap.compareBy (fun s t => decide (s < t)) (fun x y => decide (x < y)) left right
  | .lessEqual, left, right =>
      heap.compareBy (fun s t => !decide (t < s)) (fun x y => decide (x ≤ y)) left right
  | .greater, left, right =>
      heap.compareBy (fun s t => decide (t < s)) (fun x y => decide (y < x)) left right
  | .greaterEqual, left, right =>
      heap.compareBy (fun s t => !decide (s < t)) (fun x y => decide (y ≤ x)) left right
  | .equal, left, right => return .bool (← heap.looseEquals left right)
  | .notEqual, left, right => return .bool (!(← heap.looseEquals left right))
  | .strictEqual, left, right => return .bool (left.strictEquals right)
  | .strictNotEqual, left, right => return .bool (!left.strictEquals right)

/-- What a unary operator computes. -/
def unary (heap : Heap) : UnaryOp → Value → Watch Value
  | .not, value => return .bool !value.isTruthy
  | .neg, value => return .number (-(← heap.toNumber value))
  | .plus, value => return .number (← heap.toNumber value)

end Heap

end LiveMarkup
