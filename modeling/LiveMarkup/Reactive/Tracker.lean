import Std.Data.HashMap
import LiveMarkup.Config
import LiveMarkup.Heap.Watch

/-!
# Trackers

A tracker knows which effects have read which properties, which effects are running, and which
faults nobody has dealt with.  Subscriptions are only ever added, in the order in which they first
came.
-/

namespace LiveMarkup

/-- The state of a tracker. -/
structure Tracker where
  /-- How it was configured. -/
  config : Config
  /-- The effects that have read a property, in order of their first read. -/
  subscriptions : Std.HashMap Access (Array EffectId)
  /-- The running effects, innermost first; `none` where reads are not followed. -/
  stack : List (Option EffectId)
  /-- The faults that were reported, oldest first. -/
  errors : Array Fault

namespace Tracker

/-- A tracker in which nothing has happened. -/
def new (config : Config) : Tracker := ⟨config, ∅, [], #[]⟩

instance : Inhabited Tracker := ⟨new Config.default⟩

/-- The effects subscribed to a property. -/
def dependents (tracker : Tracker) (access : Access) : Array EffectId :=
  tracker.subscriptions.getD access #[]

/-- The effect that reads count for, if any. -/
def current (tracker : Tracker) : Option EffectId := tracker.stack.head?.join

/-- Whether an effect is running. -/
def isRunning (tracker : Tracker) (effect : EffectId) : Bool := tracker.stack.contains (some effect)

/-- Subscribes an effect to a property unless it is subscribed already. -/
def subscribe (tracker : Tracker) (access : Access) (effect : EffectId) : Tracker :=
  let present := tracker.dependents access
  if present.contains effect then tracker
  else
    { tracker with
      subscriptions := tracker.subscriptions.insert access (present.push effect) }

/-- Counts a read for the running effect. -/
def track (tracker : Tracker) (access : Access) : Tracker :=
  match tracker.current with
  | some effect => tracker.subscribe access effect
  | none => tracker

/-- Opens a frame for an effect, or one in which reads are not followed. -/
def enter (tracker : Tracker) (frame : Option EffectId) : Tracker :=
  { tracker with stack := frame :: tracker.stack }

/-- Closes the innermost frame. -/
def leave (tracker : Tracker) : Tracker := { tracker with stack := tracker.stack.tail }

/-- Keeps a fault for whoever asks for it. -/
def report (tracker : Tracker) (fault : Fault) : Tracker :=
  { tracker with errors := tracker.errors.push fault }

/-- Drops the faults that were kept. -/
def dropErrors (tracker : Tracker) : Tracker := { tracker with errors := #[] }

/-- How many more frames may be opened before the limit is reached. -/
def room (tracker : Tracker) : Nat := tracker.config.maxEffectDepth - tracker.stack.length

end Tracker

end LiveMarkup
