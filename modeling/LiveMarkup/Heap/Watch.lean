import LiveMarkup.Heap.Basic
import LiveMarkup.Text.Blank

/-!
# Reads that are followed

Reading a property of a container is an access, and a running effect is subscribed to the accesses
of its body.  `Watch` computes a result from a heap that stands still and collects the accesses on
the way; coercions of arrays read their items, so they are computed here too.
-/

namespace LiveMarkup

/-- A read of one property of one container. -/
structure Access where
  /-- The container. -/
  container : ContainerId
  /-- The key of the property. -/
  key : Key
  deriving DecidableEq, Hashable, Repr, Inhabited

/-- A computation that collects the accesses it makes. -/
abbrev Watch := StateM (Array Access)

namespace Heap

/-- Notes an access. -/
def touch (id : ContainerId) (key : Key) : Watch Unit := modify fun reads => reads.push ⟨id, key⟩

/-- Reads a property. -/
def get (heap : Heap) (id : ContainerId) (key : Key) : Watch Value := do
  touch id key
  return heap.peek id key

/-- The number of items or properties; this is a read of `length`. -/
def length (heap : Heap) (id : ContainerId) : Watch Nat := do
  touch id .length
  return (heap.contents id).count

/-- The items of an array, by a read of its length and of every index, or the values of an object,
by a read of every property. -/
def items (heap : Heap) (id : ContainerId) : Watch (List Value) := do
  match heap.contents id with
  | .array _ _ =>
      let length ← heap.length id
      (List.range length).mapM fun position => heap.get id (.index position)
  | .object properties => properties.keys.mapM fun key => heap.get id key

/-! ## Text -/

/-- Joins the items of an array.  Nullish items, and arrays that are being joined further up, show
as empty text. -/
def joinWith (heap : Heap) (itemText : List ContainerId → Value → Watch String)
    (separator : String) (path : List ContainerId) (id : ContainerId) : Watch String := do
  if id ∈ path then return ""
  let items ← heap.items id
  let parts ← items.mapM fun item =>
    if item.isNullish then pure "" else itemText (id :: path) item
  return separator.intercalate parts

/-- The display text of a value inside the arrays of a path, which may nest as deep as the bound.
The arrays of a path are distinct, so no path is longer than the heap has containers. -/
def displayWithin (heap : Heap) (depth : Nat) (path : List ContainerId) (value : Value) :
    Watch String :=
  match value with
  | .undefined => pure "undefined"
  | .null => pure "null"
  | .bool value => pure (if value then "true" else "false")
  | .number value => pure (displayNumber value)
  | .text value => pure value
  | .function _ => pure "function"
  | .event id => pure ("[object Event:" ++ (heap.event id).kind ++ "]")
  | .container id =>
      if heap.isArray id then
        match depth with
        | 0 => pure ""
        | depth + 1 => heap.joinWith (heap.displayWithin depth) "," path id
      else pure "[object Object]"

/-- The display text of a value. -/
def display (heap : Heap) (value : Value) : Watch String :=
  heap.displayWithin heap.containers.size [] value

/-- The items of an array as one text. -/
def join (heap : Heap) (separator : String) (id : ContainerId) : Watch String :=
  heap.joinWith (heap.displayWithin heap.containers.size) separator [] id

/-- The text that an element shows for a value: nothing for null. -/
def shownText (heap : Heap) : Value → Watch String
  | .null => pure ""
  | value => heap.display value

/-- The key that a computed member addresses. -/
def keyOf (heap : Heap) (value : Value) : Watch Key := do
  match value with
  | .number x =>
      match Key.ofNumber? x with
      | some key => return key
      | none => return Key.ofText (displayNumber x)
  | other => return Key.ofText (← heap.display other)

/-! ## Numbers -/

/-- The result of arithmetic that has none. -/
def notANumber : Float := Float.ofBits 0x7ff8000000000000

/-- The number that a text stands for: blanks around it do not count, and nothing else is zero. -/
def numberOfText (text : String) : Float :=
  let trimmed := trimBlank text.toList
  if trimmed.isEmpty then 0 else (readNumber? trimmed).getD notANumber

/-- The number that a value stands for. -/
def toNumber (heap : Heap) : Value → Watch Float
  | .undefined => pure notANumber
  | .null => pure 0
  | .bool value => pure (if value then 1 else 0)
  | .number value => pure value
  | .text value => pure (numberOfText value)
  | .container id =>
      if heap.isArray id then return numberOfText (← heap.display (.container id))
      else pure notANumber
  | .function _ => pure notANumber
  | .event _ => pure notANumber

/-! ## Equality -/

/-- A truth value as a number; other values stay. -/
def withoutBool : Value → Value
  | .bool value => .number (if value then 1 else 0)
  | value => value

/-- Equality of plain values after conversion: a text equals the number it stands for. -/
def plainEquals : Value → Value → Bool
  | .number left, .text right => left == numberOfText right
  | .text left, .number right => numberOfText left == right
  | left, right => left.strictEquals right

/-- Equality after conversion.  The two nullish values equal each other and nothing else; truth
values count as numbers; a container that meets a text or a number counts as its display text. -/
def looseEquals (heap : Heap) (left right : Value) : Watch Bool := do
  if left.isNullish || right.isNullish then return left.isNullish && right.isNullish
  match withoutBool left, withoutBool right with
  | .container id, .text right =>
      let left ← heap.display (.container id)
      return plainEquals (.text left) (.text right)
  | .container id, .number right =>
      let left ← heap.display (.container id)
      return plainEquals (.text left) (.number right)
  | .text left, .container id =>
      let right ← heap.display (.container id)
      return plainEquals (.text left) (.text right)
  | .number left, .container id =>
      let right ← heap.display (.container id)
      return plainEquals (.number left) (.text right)
  | left, right => return plainEquals left right

end Heap

end LiveMarkup
