import LiveMarkup.Reactive.Task

/-!
# Running tasks

Writes run the effects that depend on what was written, at once and in the order of their
subscriptions, and those effects may write again.  An effect that is running is not entered a second
time, and no more effects are nested than the limit of the tracker allows.  Therefore every run
ends: each nested effect opens a frame, and `runEffect` descends on the number of frames that are
left.
-/

namespace LiveMarkup

/-- The reactive state with the surroundings and the bodies of the effects. -/
structure World (σ : Type) where
  /-- The reactive state. -/
  store : Store
  /-- What tasks talk to besides it. -/
  surroundings : σ
  /-- What each effect does when it runs. -/
  bodies : Array (Task σ)

namespace World

variable {σ : Type}

/-- Changes the reactive state. -/
def mapStore (world : World σ) (change : Store → Store) : World σ :=
  { world with store := change world.store }

/-- A way to run an effect of a tracker. -/
abbrev Runner (σ : Type) := TrackerId → EffectId → World σ → Except Fault Unit × World σ

/-- Runs effects one after another.  The fault of one is reported and does not stop the others. -/
def fanOut (runner : Runner σ) (tracker : TrackerId) (effects : List EffectId) (world : World σ) :
    World σ :=
  effects.foldl (fun world effect =>
    match runner tracker effect world with
    | (.ok (), world) => world
    | (.error fault, world) => world.mapStore fun store => store.report tracker fault) world

/-- Runs the effects that depend on a property.  Effects that subscribe meanwhile do not run. -/
def trigger (runner : Runner σ) (world : World σ) (access : Access) : World σ :=
  world.fanOut runner (world.store.heap.owner access.container) (world.store.dependents access)

/-- Stores a value and then tells the readers of what has changed. -/
def write (runner : Runner σ) (id : ContainerId) (key : Key) (value : Value) (world : World σ) :
    Except ReactiveFault Unit × World σ :=
  match world.store.put id key value with
  | (.error fault, store) => (.error fault, { world with store := store })
  | (.ok changed, store) =>
      (.ok (), changed.foldl (trigger runner) { world with store := store })

/-- Removes the last item of an array and then tells the readers of what has changed. -/
def pop (runner : Runner σ) (id : ContainerId) (world : World σ) : Value × World σ :=
  match world.store.takeLast id with
  | (value, changed, store) => (value, changed.foldl (trigger runner) { world with store := store })

/-- Adds an effect that has not run. -/
def define (body : Task σ) (world : World σ) : EffectId × World σ :=
  (⟨world.bodies.size⟩,
    { world with
      bodies := world.bodies.push body
      store := { world.store with runs := world.store.runs.push 0 } })

/-- Opens a frame on the stack of a tracker. -/
def enter (tracker : TrackerId) (frame : Option EffectId) (world : World σ) : World σ :=
  world.mapStore fun store => store.modifyTracker tracker fun state => state.enter frame

/-- Closes the innermost frame of a tracker. -/
def leave (tracker : TrackerId) (world : World σ) : World σ :=
  world.mapStore fun store => store.modifyTracker tracker Tracker.leave

/-- Takes the faults that a tracker has kept. -/
def drain (tracker : TrackerId) (world : World σ) : List Fault × World σ :=
  let (faults, store) := world.store.takeErrors tracker
  (faults, { world with store := store })

/-- Runs a task, with a way to run the effects that it triggers. -/
def interpret (runner : Runner σ) : Task σ → World σ → Except Fault Value × World σ
  | .done result, world => (result, world)
  | .look next, world => interpret runner (next world.store) world
  | .has target key next, world =>
      interpret runner (next (world.store.heap.contains target key)) world
  | .track reads next, world =>
      interpret runner next (world.mapStore fun store => store.track reads)
  | .make request next, world =>
      match world.store.perform request with
      | (value, store) => interpret runner (next value) { world with store := store }
  | .write target key value next, world =>
      match world.write runner target key value with
      | (result, world) => interpret runner (next result) world
  | .pop target next, world =>
      match world.pop runner target with
      | (value, world) => interpret runner (next value) world
  | .define body next, world =>
      match world.define body with
      | (effect, world) => interpret runner (next effect) world
  | .run tracker effect next, world =>
      match runner tracker effect world with
      | (result, world) => interpret runner (next result) world
  | .untracked tracker block next, world =>
      match interpret runner block (world.enter tracker none) with
      | (result, world) => interpret runner (next result) (world.leave tracker)
  | .report tracker fault next, world =>
      interpret runner next (world.mapStore fun store => store.report tracker fault)
  | .drain tracker next, world =>
      match world.drain tracker with
      | (faults, world) => interpret runner (next faults) world
  | .survey next, world => interpret runner (next world.surroundings) world
  | .alter change next, world =>
      interpret runner next { world with surroundings := change world.surroundings }

/-- Counts a run of an effect and opens its frame. -/
def begin (tracker : TrackerId) (effect : EffectId) (world : World σ) : World σ :=
  (world.mapStore fun store =>
    { store with runs := store.runs.modify effect.index (· + 1) }).enter tracker (some effect)

/-- The body of an effect; an effect that does not exist does nothing. -/
def body (effect : EffectId) (world : World σ) : Task σ :=
  world.bodies[effect.index]?.getD (.done (.ok .undefined))

/-- Why an effect may not run now, if it may not: it is running, or the limit is reached. -/
def refusal? (tracker : TrackerId) (effect : EffectId) (world : World σ) : Option ReactiveFault :=
  let state := world.store.tracker tracker
  if state.isRunning effect then some (.cycle effect)
  else if state.config.maxEffectDepth ≤ state.stack.length then
    some (.depthExceeded state.config.maxEffectDepth)
  else none

/-- Runs an effect with its reads counted for it.  The bound is on the effects nested inside; at
zero no frame is left, so the limit of the tracker is reached there anyway. -/
def runEffect : Nat → Runner σ
  | bound, tracker, effect, world =>
      match world.refusal? tracker effect with
      | some fault => (.error (.reactive fault), world)
      | none =>
          match bound with
          | 0 =>
              (.error (.reactive
                (.depthExceeded (world.store.tracker tracker).config.maxEffectDepth)), world)
          | bound + 1 =>
              let begun := world.begin tracker effect
              match interpret (runEffect bound) (world.body effect) begun with
              | (result, world) => (result.map fun _ => (), world.leave tracker)

/-- Runs a computation from the outside. -/
def exec (world : World σ) (computation : TaskM σ Value) : Except Fault Value × World σ :=
  interpret (runEffect world.store.room) computation.toTask world

end World

end LiveMarkup
