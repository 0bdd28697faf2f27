import LiveMarkup.Reactive.Store

/-!
# What running code does

A task is a tree of the steps that effects, listeners and expressions take: it reads, writes, makes
things, defines and runs effects, and talks to its surroundings `σ`.  Every step says how to go on
with its answer, so a task is finite along each of its courses.  `TaskM` composes tasks; a fault
ends a computation unless it is caught.
-/

namespace LiveMarkup

/-- Code that is yet to run, in surroundings of type `σ`. -/
inductive Task (σ : Type) : Type where
  /-- Ends with a value or a fault. -/
  | done (result : Except Fault Value)
  /-- Looks at the reactive state without being followed. -/
  | look (next : Store → Task σ)
  /-- Asks whether a container has a property, without being followed. -/
  | has (target : ContainerId) (key : Key) (next : Bool → Task σ)
  /-- Counts reads for the running effects. -/
  | track (reads : Array Access) (next : Task σ)
  /-- Makes something in the heap. -/
  | make (request : Request) (next : Value → Task σ)
  /-- Writes a property and runs the effects that depend on it. -/
  | write (target : ContainerId) (key : Key) (value : Value)
      (next : Except ReactiveFault Unit → Task σ)
  /-- Removes the last item of an array and runs the effects that depend on it. -/
  | pop (target : ContainerId) (next : Value → Task σ)
  /-- Gives a new effect its body, without running it. -/
  | define (body : Task σ) (next : EffectId → Task σ)
  /-- Runs an effect. -/
  | run (tracker : TrackerId) (effect : EffectId) (next : Except Fault Unit → Task σ)
  /-- Runs a block whose reads count for no effect. -/
  | untracked (tracker : TrackerId) (block : Task σ) (next : Except Fault Value → Task σ)
  /-- Keeps a fault with a tracker. -/
  | report (tracker : TrackerId) (fault : Fault) (next : Task σ)
  /-- Takes the faults that a tracker has kept. -/
  | drain (tracker : TrackerId) (next : List Fault → Task σ)
  /-- Looks at the surroundings. -/
  | survey (next : σ → Task σ)
  /-- Changes the surroundings. -/
  | alter (change : σ → σ) (next : Task σ)

/-- A computation that yields an `α` or a fault to whatever comes after it. -/
def TaskM (σ α : Type) : Type := (Except Fault α → Task σ) → Task σ

namespace TaskM

variable {σ α β : Type}

instance : Monad (TaskM σ) where
  pure a := fun next => next (.ok a)
  bind computation rest := fun next =>
    computation fun
      | .ok a => rest a next
      | .error fault => next (.error fault)

instance : LawfulMonad (TaskM σ) :=
  LawfulMonad.mk' (TaskM σ)
    (fun computation => funext fun _ => congrArg computation (funext fun result => by
      cases result <;> rfl))
    (fun _ _ => rfl)
    (fun computation _ _ => funext fun _ => congrArg computation (funext fun result => by
      cases result <;> rfl))

/-- Ends with a fault. -/
def fail (fault : Fault) : TaskM σ α := fun next => next (.error fault)

/-- The outcome of a computation; nothing fails. -/
def attempt (computation : TaskM σ α) : TaskM σ (Except Fault α) := fun next =>
  computation fun result => next (.ok result)

/-- Goes on with a result or fails with its fault. -/
def ofExcept (result : Except Fault α) : TaskM σ α := fun next => next result

/-- Goes on with a result or fails with the evaluation fault. -/
def ofEval (result : Except EvalFault α) : TaskM σ α := ofExcept (result.mapError Fault.eval)

/-- The task that a computation of a value is. -/
def toTask (computation : TaskM σ Value) : Task σ := computation .done

/-- Looks at the heap without being followed. -/
def look (observe : Heap → α) : TaskM σ α := fun next =>
  .look fun store => next (.ok (observe store.heap))

/-- Looks at the reactive state without being followed. -/
def lookStore (observe : Store → α) : TaskM σ α := fun next =>
  .look fun store => next (.ok (observe store))

/-- Asks whether a container has a property, without being followed. -/
def has (target : ContainerId) (key : Key) : TaskM σ Bool := fun next =>
  .has target key fun present => next (.ok present)

/-- Reads the heap and counts the reads. -/
def watch (computation : Heap → Watch α) : TaskM σ α := fun next =>
  .look fun store =>
    let (result, reads) := (computation store.heap).run #[]
    .track reads (next (.ok result))

/-- Makes something in the heap. -/
def make (request : Request) : TaskM σ Value := fun next =>
  .make request fun value => next (.ok value)

/-- Writes a property, with the refusal of the container as the answer. -/
def tryWrite (target : ContainerId) (key : Key) (value : Value) :
    TaskM σ (Except ReactiveFault Unit) := fun next =>
  .write target key value fun result => next (.ok result)

/-- Removes the last item of an array. -/
def pop (target : ContainerId) : TaskM σ Value := fun next =>
  .pop target fun value => next (.ok value)

/-- A new effect that has not run. -/
def define (body : TaskM σ Value) : TaskM σ EffectId := fun next =>
  .define body.toTask fun effect => next (.ok effect)

/-- Runs an effect, with its fault as the answer. -/
def tryRun (tracker : TrackerId) (effect : EffectId) : TaskM σ (Except Fault Unit) := fun next =>
  .run tracker effect fun result => next (.ok result)

/-- Runs a block whose reads count for no effect; its fault is passed on. -/
def untracked (tracker : TrackerId) (block : TaskM σ Value) : TaskM σ Value := fun next =>
  .untracked tracker block.toTask next

/-- Keeps a fault with a tracker. -/
def report (tracker : TrackerId) (fault : Fault) : TaskM σ Unit := fun next =>
  .report tracker fault (next (.ok ()))

/-- Takes the faults that a tracker has kept. -/
def drain (tracker : TrackerId) : TaskM σ (List Fault) := fun next =>
  .drain tracker fun faults => next (.ok faults)

/-- Looks at the surroundings. -/
def survey (observe : σ → α) : TaskM σ α := fun next =>
  .survey fun surroundings => next (.ok (observe surroundings))

/-- Changes the surroundings. -/
def alter (change : σ → σ) : TaskM σ Unit := fun next => .alter change (next (.ok ()))

/-- Writes a property; a refusal is reported and leaves the data as it is. -/
def set (target : ContainerId) (key : Key) (value : Value) : TaskM σ Unit := do
  match ← tryWrite target key value with
  | .ok () => pure ()
  | .error fault =>
      let owner ← look fun heap => heap.owner target
      report owner (.reactive fault)

/-- Appends to an array and gives the length that it should have then.  Objects take nothing. -/
def push (target : ContainerId) (value : Value) : TaskM σ Nat := do
  match ← look fun heap => heap.contents target with
  | .array items _ =>
      set target (.index items.size) value
      return items.size + 1
  | .object _ => return 0

/-- Defines an effect and runs it once; the fault of that run is reported. -/
def createEffect (tracker : TrackerId) (body : TaskM σ Value) : TaskM σ EffectId := do
  let effect ← define body
  match ← tryRun tracker effect with
  | .ok () => pure ()
  | .error fault => report tracker fault
  return effect

end TaskM

end LiveMarkup
