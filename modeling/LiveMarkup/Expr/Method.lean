import LiveMarkup.Reactive.Task
import LiveMarkup.Text.Case

/-!
# Properties and methods of values

Reading and writing members of any value, and the methods that arrays, texts and events have.
-/

namespace LiveMarkup

namespace Value

variable {σ : Type}

/-- Fails with an evaluation fault. -/
def evalFail {α : Type} (fault : EvalFault) : TaskM σ α := TaskM.fail (.eval fault)

/-- A property of a text: its number of characters, or one of them. -/
def textProperty (text : String) (key : Key) : Value :=
  match key with
  | .index position =>
      match text.toList[position]? with
      | some c => .text c.toString
      | none => .undefined
  | .name _ => if key.isLength then .ofNat text.length else .undefined

/-- Reads a member.  Nullish values have none, and most values have few. -/
def getProperty (base : Value) (key : Key) : TaskM σ Value :=
  match base with
  | .undefined => evalFail (.readOfNullish key .undefined)
  | .null => evalFail (.readOfNullish key .null)
  | .container id => TaskM.watch fun heap => heap.get id key
  | .text content => pure (textProperty content key)
  | .event id => TaskM.look fun heap => (heap.event id).property key
  | .function id =>
      if key.isLength then TaskM.look fun heap => .ofNat (heap.arity id) else pure .undefined
  | .bool _ => pure .undefined
  | .number _ => pure .undefined

/-- Writes to a container, failing if it refuses. -/
def writeContainer (id : ContainerId) (key : Key) (value : Value) : TaskM σ Unit := do
  match ← TaskM.tryWrite id key value with
  | .ok () => pure ()
  | .error fault => evalFail (.write fault)

/-- Writes a member.  Writes to plain values are dropped. -/
def setProperty (base : Value) (key : Key) (value : Value) : TaskM σ Unit :=
  match base with
  | .undefined => evalFail (.writeToNullish key .undefined)
  | .null => evalFail (.writeToNullish key .null)
  | .container id => writeContainer id key value
  | .bool _ | .number _ | .text _ | .event _ | .function _ => pure ()

/-- An argument of a call; a missing one is undefined. -/
def argument (args : List Value) (position : Nat) : Value := args[position]?.getD .undefined

/-- Appends values behind a length, one write for each, and gives the length reached. -/
def appendAll (id : ContainerId) : Nat → List Value → TaskM σ Nat
  | length, [] => pure length
  | length, value :: rest => do
      writeContainer id (.index length) value
      appendAll id (length + 1) rest

/-- The methods of an array. -/
def arrayMethod? (id : ContainerId) (name : String) (args : List Value) : Option (TaskM σ Value) :=
  if name = "push" then some do
    let length ← TaskM.watch fun heap => heap.length id
    return .ofNat (← appendAll id length args)
  else if name = "pop" then some (TaskM.pop id)
  else if name = "includes" then some do
    let items ← TaskM.watch fun heap => heap.items id
    return .bool (items.any fun item => item.sameValue (argument args 0))
  else if name = "join" then some do
    let separator ← match argument args 0 with
      | .undefined => pure ","
      | value => TaskM.watch fun heap => heap.display value
    return .text (← TaskM.watch fun heap => heap.join separator id)
  else none

/-- Whether a text occurs in another one. -/
def occursIn (part : List Char) : List Char → Bool
  | [] => part.isEmpty
  | c :: rest => part.isPrefixOf (c :: rest) || occursIn part rest

/-- The methods of a text. -/
def textMethod? (text : String) (name : String) (args : List Value) : Option (TaskM σ Value) :=
  if name = "toUpperCase" then some (pure (.text (upperText text)))
  else if name = "toLowerCase" then some (pure (.text (lowerText text)))
  else if name = "trim" then some (pure (.text (trimBlankText text)))
  else if name = "includes" then some do
    let part ← TaskM.watch fun heap => heap.display (argument args 0)
    return .bool (occursIn part.toList text.toList)
  else none

/-- The methods of an event. -/
def eventMethod? (id : EventId) (name : String) : Option (TaskM σ Value) :=
  if name = "preventDefault" then some do
    let _ ← TaskM.make (.amend id fun event => { event with defaultPrevented := true })
    return .undefined
  else if name = "stopPropagation" then some do
    let _ ← TaskM.make (.amend id fun event => { event with propagationStopped := true })
    return .undefined
  else none

/-- The methods that belong to the type of a value. -/
def ownMethod? (isArray : Bool) (receiver : Value) (name : String) (args : List Value) :
    Option (TaskM σ Value) :=
  match receiver with
  | .container id => if isArray then arrayMethod? id name args else none
  | .text content => textMethod? content name args
  | .event id => eventMethod? id name
  | .undefined | .null | .bool _ | .number _ | .function _ => none

/-- Calls a method that a value has by its type.  Every value has its display text. -/
def callMethod (receiver : Value) (key : Key) (args : List Value) : TaskM σ Value := do
  match key with
  | .index _ => evalFail (.notCallable (.property key))
  | .name name =>
      let type ← TaskM.look fun heap => heap.typeName receiver
      match ownMethod? (type = .array) receiver name args with
      | some method => method
      | none =>
          if name = "toString" then
            return .text (← TaskM.watch fun heap => heap.display receiver)
          else evalFail (.notCallable (.method type name))

end Value

end LiveMarkup
