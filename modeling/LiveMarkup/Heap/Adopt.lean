import LiveMarkup.Heap.Basic
import LiveMarkup.Json.Basic

/-!
# Values that change owners, and JSON data

A container only holds containers of its own tracker.  A value that comes from another tracker is
therefore copied, from the inside out, before it is stored.  JSON data becomes containers on its way
in; on its way out a value is copied into JSON without any read being followed.
-/

namespace LiveMarkup

namespace Heap

/-- A new array with items that are taken over in order. -/
def buildArray (tracker : TrackerId) (take : Value → StateM Heap Value) (items : List Value) :
    StateM Heap ContainerId := do
  let items ← items.mapM take
  modifyGet fun heap => heap.newContainer tracker (.array items.toArray Assoc.empty)

/-- A new object with properties that are taken over in order.  A repeated key keeps its first place
and its last value. -/
def buildObject (tracker : TrackerId) (take : Value → StateM Heap Value)
    (entries : List (Key × Value)) : StateM Heap ContainerId := do
  let entries ← entries.mapM fun entry => do return (entry.1, ← take entry.2)
  modifyGet fun heap => heap.newContainer tracker (.object (Assoc.ofList entries))

/-- A new container with what another one holds; of an array only the items. -/
def rebuild (tracker : TrackerId) (take : Value → StateM Heap Value) :
    Contents → StateM Heap ContainerId
  | .array items _ => buildArray tracker take items.toList
  | .object properties => buildObject tracker take properties.entries

/-- A value under the control of a tracker.  Plain values stay, and so do containers that belong to
it; other containers are copied.  The bound is on the nesting of foreign containers; a container
that holds itself has no finite copy and is left out. -/
def adoptWithin (tracker : TrackerId) : Nat → Value → StateM Heap Value
  | depth, .container id => do
      let heap ← get
      if heap.owner id = tracker then return .container id
      match depth with
      | 0 => return .undefined
      | depth + 1 => return .container (← rebuild tracker (adoptWithin tracker depth) (heap.contents id))
  | _, value => return value

/-- A value under the control of a tracker. -/
def adopt (tracker : TrackerId) (value : Value) : StateM Heap Value := do
  let heap ← get
  adoptWithin tracker heap.containers.size value

/-- A new object with the given properties. -/
def newObject (tracker : TrackerId) (entries : List (Key × Value)) : StateM Heap ContainerId :=
  buildObject tracker (adopt tracker) entries

/-- A new array with the given items. -/
def newArray (tracker : TrackerId) (items : List Value) : StateM Heap ContainerId :=
  buildArray tracker (adopt tracker) items

mutual

/-- JSON data as a value. -/
def ofJson (tracker : TrackerId) : Json → StateM Heap Value
  | .null => return .null
  | .bool value => return .bool value
  | .integer value => return .number (Float.ofInt value)
  | .float value => return .number value
  | .string text => return .text text
  | .array items => do return .container (← newArray tracker (← ofJsonItems tracker items))
  | .object members => do return .container (← newObject tracker (← ofJsonMembers tracker members))

/-- The items of JSON data as values. -/
def ofJsonItems (tracker : TrackerId) : List Json → StateM Heap (List Value)
  | [] => return []
  | item :: rest => do return (← ofJson tracker item) :: (← ofJsonItems tracker rest)

/-- The members of JSON data as properties. -/
def ofJsonMembers (tracker : TrackerId) : List (String × Json) → StateM Heap (List (Key × Value))
  | [] => return []
  | (name, item) :: rest => do
      return (Key.ofText name, ← ofJson tracker item) :: (← ofJsonMembers tracker rest)

end

/-- A number in JSON: integral values below nine quadrillions are integers, and what is not finite
is null. -/
def numberToJson (x : Float) : Json :=
  match (Exact.ofFloat x).integer? with
  | some n => if n.natAbs < 9000000000000000 then .integer n else .float x
  | none => if x.isFinite then .float x else .null

/-- A value inside the containers of a path as JSON.  There is none if a container holds itself. -/
def toJsonWithin (heap : Heap) : Nat → List ContainerId → Value → Option Json
  | _, _, .undefined => some .null
  | _, _, .null => some .null
  | _, _, .bool value => some (.bool value)
  | _, _, .number value => some (numberToJson value)
  | _, _, .text value => some (.string value)
  | _, _, .function _ => some .null
  | _, _, .event _ => some .null
  | 0, _, .container _ => none
  | depth + 1, path, .container id =>
      if id ∈ path then none
      else
        match heap.contents id with
        | .array items _ => (items.toList.mapM (heap.toJsonWithin depth (id :: path))).map .array
        | .object properties =>
            (properties.entries.mapM fun (entry : Key × Value) =>
              (heap.toJsonWithin depth (id :: path) entry.2).map fun json =>
                (entry.1.text, json)).map Json.ofMembers

/-- A value as JSON.  Functions, events and undefined become null.  There is none for a value in
which some container holds itself. -/
def toJson? (heap : Heap) (value : Value) : Option Json :=
  heap.toJsonWithin heap.containers.size [] value

end Heap

end LiveMarkup
