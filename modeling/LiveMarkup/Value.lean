import LiveMarkup.Key

/-!
# Values

What an expression can produce or a data object can hold.  Objects and arrays, functions and events
have an identity of their own, so a value only refers to them; everything else is plain.
-/

namespace LiveMarkup

/-- Refers to an object or an array. -/
structure ContainerId where
  /-- Its number in order of creation. -/
  index : Nat
  deriving DecidableEq, Hashable, Repr, Inhabited

/-- Refers to a function. -/
structure FunctionId where
  /-- Its number in order of creation. -/
  index : Nat
  deriving DecidableEq, Repr, Inhabited

/-- Refers to an event. -/
structure EventId where
  /-- Its number in order of creation. -/
  index : Nat
  deriving DecidableEq, Repr, Inhabited

/-- Refers to an element of a document. -/
structure ElementId where
  /-- Its number in order of creation. -/
  index : Nat
  deriving DecidableEq, Repr, Inhabited

/-- Refers to an effect. -/
structure EffectId where
  /-- Its number in order of creation, over all trackers. -/
  index : Nat
  deriving DecidableEq, Repr, Inhabited

/-- Refers to a tracker. -/
structure TrackerId where
  /-- Its position among the trackers. -/
  index : Nat
  deriving DecidableEq, Repr, Inhabited

/-- A value. -/
inductive Value where
  | undefined
  | null
  | bool (value : Bool)
  | number (value : Float)
  | text (value : String)
  /-- An object or an array. -/
  | container (id : ContainerId)
  | function (id : FunctionId)
  | event (id : EventId)
  deriving DecidableEq, Inhabited

/-- The name of a value's type in messages. -/
inductive TypeName where
  | undefined
  | null
  | boolean
  | number
  | string
  | array
  | object
  | function
  | event
  deriving DecidableEq, Repr

/-- The text of a type's name. -/
def TypeName.text : TypeName → String
  | undefined => "undefined"
  | null => "null"
  | boolean => "boolean"
  | number => "number"
  | string => "string"
  | array => "array"
  | object => "object"
  | function => "function"
  | event => "event"

namespace Value

/-- Whether a value stands for the absence of one. -/
def isNullish : Value → Bool
  | undefined | null => true
  | _ => false

/-- Whether a value counts as true in a condition. -/
def isTruthy : Value → Bool
  | undefined | null => false
  | bool value => value
  | number value => value != 0 && !value.isNaN
  | text value => !value.isEmpty
  | container _ | function _ | event _ => true

/-- Equality of type and value; containers, functions and events are compared by identity.  A number
equals another as doubles do: no number differs from itself and the two zeros are equal. -/
def strictEquals : Value → Value → Bool
  | undefined, undefined | null, null => true
  | bool left, bool right => left == right
  | number left, number right => left == right
  | text left, text right => left == right
  | container left, container right => left == right
  | function left, function right => left == right
  | event left, event right => left == right
  | _, _ => false

/-- Strict equality, with the exception that no number equals itself. -/
def sameValue : Value → Value → Bool
  | number left, number right => left == right || (left.isNaN && right.isNaN)
  | left, right => left.strictEquals right

/-- A natural number as a value. -/
def ofNat (n : Nat) : Value := number (Float.ofNat n)

end Value

end LiveMarkup
