import LiveMarkup.Assoc
import LiveMarkup.Expr.Basic
import LiveMarkup.Fault

/-!
# Containers, functions and events

The heap holds everything that values refer to.  A container is an object or an array and belongs to
the tracker that follows its reads and writes.  The functions of this file read and store without
being followed.
-/

namespace LiveMarkup

/-- The length up to which writes let an array grow. -/
def maxArrayLength : Nat := 1048576

/-- What a container holds. -/
inductive Contents where
  /-- The properties of an object. -/
  | object (properties : Assoc Key Value)
  /-- The items of an array, and the properties that were set on it under names. -/
  | array (items : Array Value) (named : Assoc Key Value)

namespace Contents

/-- The contents of an object without properties. -/
def emptyObject : Contents := object Assoc.empty

/-- Whether the contents are those of an array. -/
def isArray : Contents → Bool
  | object _ => false
  | array _ _ => true

/-- The value under a key; a missing one reads as undefined. -/
def lookup (key : Key) : Contents → Value
  | object properties => (properties.get? key).getD .undefined
  | array items named =>
      match key with
      | .index position => items[position]?.getD .undefined
      | .name _ =>
          if key.isLength then Value.ofNat items.size else (named.get? key).getD .undefined

/-- Whether there is a property under a key. -/
def contains (key : Key) : Contents → Bool
  | object properties => properties.contains key
  | array items named =>
      match key with
      | .index position => position < items.size
      | .name _ => key.isLength || named.contains key

/-- The number of items of an array or of properties of an object. -/
def count : Contents → Nat
  | object properties => properties.size
  | array items _ => items.size

/-- The properties of an object or the items of an array, in order and with their keys. -/
def entries : Contents → List (Key × Value)
  | object properties => properties.entries
  | array items _ => items.toList.mapIdx fun position item => (.index position, item)

/-- Cuts a list of items off at a length, or fills it up with undefined. -/
def resize (items : Array Value) (length : Nat) : Array Value :=
  if length ≤ items.size then items.extract 0 length
  else items ++ Array.replicate (length - items.size) .undefined

/-- Stores an item; a gap before it is filled with undefined. -/
def storeItem (items : Array Value) (position : Nat) (value : Value) : Array Value :=
  if h : position < items.size then items.set position value h
  else (resize items position).push value

/-- The length that a number names, if an array may have it. -/
def validLength? (x : Float) : Option Nat :=
  let value := Exact.ofFloat x
  match value.natural? with
  | some length =>
      if value.isNegative = false ∧ length ≤ maxArrayLength then some length else none
  | none => none

/-- Stores a value under a key that is not the length of an array.  Objects take every key, and
arrays every name and the indices below the greatest length. -/
def store (key : Key) (value : Value) : Contents → Except ReactiveFault Contents
  | object properties => .ok (object (properties.insert key value))
  | array items named =>
      match key with
      | .index position =>
          if position < maxArrayLength then .ok (array (storeItem items position value) named)
          else .error (.indexOutOfRange position maxArrayLength)
      | .name _ => .ok (array items (named.insert key value))

/-- Gives an array a length.  Objects have none and stay as they are. -/
def setLength (length : Nat) : Contents → Contents
  | object properties => object properties
  | array items named => array (resize items length) named

/-- The last item of an array with its position, and what is left without it. -/
def pop? : Contents → Option (Nat × Value × Contents)
  | object _ => none
  | array items named =>
      match items.back? with
      | some last => some (items.size - 1, last, array items.pop named)
      | none => none

end Contents

/-- An object or an array with the tracker it belongs to. -/
structure Container where
  /-- The tracker that reads and writes are reported to. -/
  owner : TrackerId
  /-- What the container holds. -/
  contents : Contents

/-- What an expression can see besides its bindings. -/
structure Scope where
  /-- The tracker that new containers belong to. -/
  tracker : TrackerId
  /-- The object whose properties act as variables. -/
  data : Option ContainerId
  deriving DecidableEq, Repr

/-- Bindings that come before the properties of the data and cannot be assigned to. -/
abbrev Bindings := Assoc String Value

/-- A function with what it saw where it was written. -/
structure Closure where
  /-- The names of its parameters. -/
  params : List String
  /-- The expression it computes. -/
  body : Expr
  /-- The scope around it. -/
  scope : Scope
  /-- The bindings around it. -/
  bindings : Bindings

/-- An event on its way through a document. -/
structure Event where
  /-- What happened. -/
  kind : String
  /-- Whether the ancestors of the target hear of it. -/
  bubbles : Bool
  /-- Whether a listener prevented the default action. -/
  defaultPrevented : Bool
  /-- Whether a listener stopped the way up. -/
  propagationStopped : Bool
  /-- The element it was dispatched on. -/
  target : Option ElementId
  /-- The element whose listeners run. -/
  currentTarget : Option ElementId

/-- An event before its dispatch. -/
def Event.fresh (kind : String) (bubbles : Bool) : Event :=
  ⟨kind, bubbles, false, false, none, none⟩

/-- The property of an event that expressions can read. -/
def Event.property (event : Event) (key : Key) : Value :=
  if key.text = "type" then .text event.kind
  else if key.text = "bubbles" then .bool event.bubbles
  else if key.text = "defaultPrevented" then .bool event.defaultPrevented
  else .undefined

/-- Everything that values refer to. -/
structure Heap where
  /-- Objects and arrays. -/
  containers : Array Container
  /-- Functions. -/
  closures : Array Closure
  /-- Events. -/
  events : Array Event

namespace Heap

/-- The heap without anything in it. -/
def empty : Heap := ⟨#[], #[], #[]⟩

/-- What an identifier refers to.  One that refers to nothing reads as an empty object. -/
def container (heap : Heap) (id : ContainerId) : Container :=
  heap.containers[id.index]?.getD ⟨⟨0⟩, .emptyObject⟩

/-- The tracker that a container belongs to. -/
def owner (heap : Heap) (id : ContainerId) : TrackerId := (heap.container id).owner

/-- What a container holds. -/
def contents (heap : Heap) (id : ContainerId) : Contents := (heap.container id).contents

/-- Whether a container is an array. -/
def isArray (heap : Heap) (id : ContainerId) : Bool := (heap.contents id).isArray

/-- Reads a property. -/
def peek (heap : Heap) (id : ContainerId) (key : Key) : Value := (heap.contents id).lookup key

/-- Whether a container has a property. -/
def contains (heap : Heap) (id : ContainerId) (key : Key) : Bool := (heap.contents id).contains key

/-- The array behind a value, if it is one. -/
def array? (heap : Heap) : Value → Option ContainerId
  | .container id => if heap.isArray id then some id else none
  | _ => none

/-- The name of a value's type. -/
def typeName (heap : Heap) : Value → TypeName
  | .undefined => .undefined
  | .null => .null
  | .bool _ => .boolean
  | .number _ => .number
  | .text _ => .string
  | .container id => if heap.isArray id then .array else .object
  | .function _ => .function
  | .event _ => .event

/-- Replaces the contents of a container. -/
def setContents (heap : Heap) (id : ContainerId) (contents : Contents) : Heap :=
  { heap with
    containers := heap.containers.modify id.index fun container =>
      { container with contents := contents } }

/-- Adds a container. -/
def newContainer (heap : Heap) (owner : TrackerId) (contents : Contents) : ContainerId × Heap :=
  (⟨heap.containers.size⟩, { heap with containers := heap.containers.push ⟨owner, contents⟩ })

/-- Adds a function. -/
def newClosure (heap : Heap) (closure : Closure) : FunctionId × Heap :=
  (⟨heap.closures.size⟩, { heap with closures := heap.closures.push closure })

/-- Adds an event. -/
def newEvent (heap : Heap) (event : Event) : EventId × Heap :=
  (⟨heap.events.size⟩, { heap with events := heap.events.push event })

/-- Changes an event. -/
def modifyEvent (heap : Heap) (id : EventId) (change : Event → Event) : Heap :=
  { heap with events := heap.events.modify id.index change }

/-- The event behind an identifier. -/
def event (heap : Heap) (id : EventId) : Event :=
  heap.events[id.index]?.getD (Event.fresh "" false)

/-- The number of parameters of a function. -/
def arity (heap : Heap) (id : FunctionId) : Nat :=
  (heap.closures[id.index]?.map fun closure => closure.params.length).getD 0

end Heap

end LiveMarkup
