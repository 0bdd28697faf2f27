import LiveMarkup.Heap.Adopt
import LiveMarkup.Reactive.Tracker

/-!
# The reactive state

The heap, the trackers that follow it, and how often each effect has run.
-/

namespace LiveMarkup

/-- All state but that of the surroundings. -/
structure Store where
  /-- Containers, functions and events. -/
  heap : Heap
  /-- The trackers. -/
  trackers : Array Tracker
  /-- How often each effect has run. -/
  runs : Array Nat

/-- Something that is made in the heap. -/
inductive Request where
  /-- An object with the given properties. -/
  | object (tracker : TrackerId) (entries : List (Key × Value))
  /-- An array with the given items. -/
  | array (tracker : TrackerId) (items : List Value)
  /-- A value under the control of a tracker. -/
  | adopt (tracker : TrackerId) (value : Value)
  /-- JSON data under the control of a tracker. -/
  | data (tracker : TrackerId) (json : Json)
  /-- A function. -/
  | closure (code : Closure)
  /-- An event. -/
  | event (fresh : Event)
  /-- A change of an event that exists. -/
  | amend (id : EventId) (change : Event → Event)

/-- Makes what is asked for and refers to it. -/
def Request.perform : Request → StateM Heap Value
  | object tracker entries => do return .container (← Heap.newObject tracker entries)
  | array tracker items => do return .container (← Heap.newArray tracker items)
  | adopt tracker value => Heap.adopt tracker value
  | data tracker json => Heap.ofJson tracker json
  | closure code => do return .function (← modifyGet fun heap => heap.newClosure code)
  | event fresh => do return .event (← modifyGet fun heap => heap.newEvent fresh)
  | amend id change => do
      modify fun heap => heap.modifyEvent id change
      return .event id

namespace Store

/-- Nothing but some trackers. -/
def new (configs : List Config) : Store :=
  ⟨Heap.empty, (configs.map Tracker.new).toArray, #[]⟩

/-- A tracker by its identifier. -/
def tracker (store : Store) (id : TrackerId) : Tracker := store.trackers[id.index]?.getD default

/-- Changes a tracker. -/
def modifyTracker (store : Store) (id : TrackerId) (change : Tracker → Tracker) : Store :=
  { store with trackers := store.trackers.modify id.index change }

/-- Keeps a fault with a tracker. -/
def report (store : Store) (id : TrackerId) (fault : Fault) : Store :=
  store.modifyTracker id fun tracker => tracker.report fault

/-- Takes the faults that a tracker has kept. -/
def takeErrors (store : Store) (id : TrackerId) : List Fault × Store :=
  ((store.tracker id).errors.toList, store.modifyTracker id Tracker.dropErrors)

/-- Counts a read with the tracker that the container belongs to. -/
def trackOne (store : Store) (access : Access) : Store :=
  store.modifyTracker (store.heap.owner access.container) fun tracker => tracker.track access

/-- Counts reads in order. -/
def track (store : Store) (reads : Array Access) : Store := reads.foldl trackOne store

/-- Runs a computation on the heap and counts the reads it makes. -/
def watch {α : Type} (store : Store) (computation : Heap → Watch α) : α × Store :=
  let (result, reads) := (computation store.heap).run #[]
  (result, store.track reads)

/-- Makes something in the heap. -/
def perform (store : Store) (request : Request) : Value × Store :=
  let (value, heap) := request.perform store.heap
  (value, { store with heap := heap })

/-- The effects subscribed to a property, with the tracker of its container. -/
def dependents (store : Store) (access : Access) : List EffectId :=
  ((store.tracker (store.heap.owner access.container)).dependents access).toList

/-- Replaces the contents of a container. -/
def setContents (store : Store) (id : ContainerId) (contents : Contents) : Store :=
  { store with heap := store.heap.setContents id contents }

/-- The length of an array that a value names.  Reading the value may read containers, the written
one among them. -/
def lengthOf (store : Store) (value : Value) : Except ReactiveFault Nat × Store :=
  let (x, store) := store.watch fun heap => heap.toNumber value
  match Contents.validLength? x with
  | some length => (.ok length, store)
  | none =>
      let (shown, store) := store.watch fun heap => heap.display value
      (.error (.invalidLength shown), store)

/-- The contents of a container after a write, unless the container refuses it.  A write to the
length of an array takes what the value names. -/
def contentsAfter (store : Store) (id : ContainerId) (key : Key) (value : Value) :
    Except ReactiveFault Contents × Store :=
  let before := store.heap.contents id
  if key.isLength && before.isArray then
    let (length, store) := store.lengthOf value
    (length.map before.setLength, store)
  else (before.store key value, store)

/-- The properties whose readers are to be told of a write under a key: the key itself, and the
length of an array that the write has changed. -/
def told (id : ContainerId) (key : Key) (before after : Contents) : List Access :=
  let lengthChanged := before.isArray && before.count != after.count && !key.isLength
  ⟨id, key⟩ :: if lengthChanged then [⟨id, .length⟩] else []

/-- Stores a value under the control of the container's tracker, unless the container refuses it,
and lists the properties whose readers are to be told. -/
def put (store : Store) (id : ContainerId) (key : Key) (value : Value) :
    Except ReactiveFault (List Access) × Store :=
  let (value, store) := store.perform (.adopt (store.heap.owner id) value)
  match store.contentsAfter id key value with
  | (.error fault, store) => (.error fault, store)
  | (.ok after, store) =>
      (.ok (told id key (store.heap.contents id) after), store.setContents id after)

/-- Removes the last item of an array and lists the properties whose readers are to be told.  An
object or an empty array has no last item. -/
def takeLast (store : Store) (id : ContainerId) : Value × List Access × Store :=
  match (store.heap.contents id).pop? with
  | some (position, value, rest) =>
      (value, [⟨id, .index position⟩, ⟨id, .length⟩], store.setContents id rest)
  | none => (.undefined, [], store)

/-- The number of frames that may still be opened, over all trackers. -/
def room (store : Store) : Nat := (store.trackers.toList.map Tracker.room).foldr (· + ·) 0

end Store

end LiveMarkup
