import LiveMarkup.Document.Dom
import LiveMarkup.Reactive.Task

/-!
# Events on their way up

An event runs the listeners of its target and then, if it bubbles, those of one ancestor after
another, until a listener stops it.  All listeners that an element has when the event arrives are
run.
-/

namespace LiveMarkup

/-- How surroundings hold a document, and what its listeners do. -/
structure Stage (σ ℓ : Type) where
  /-- The document. -/
  dom : σ → Dom ℓ
  /-- What a listener does with an event. -/
  handle : ℓ → EventId → TaskM σ Unit

namespace Stage

variable {σ ℓ : Type}

/-- Runs listeners one after another. -/
def handleAll (stage : Stage σ ℓ) (event : EventId) : List ℓ → TaskM σ Unit
  | [] => pure ()
  | listener :: rest => do
      stage.handle listener event
      stage.handleAll event rest

/-- Runs the listeners of an element and goes on to its parent.  The bound is on the number of
elements that are visited. -/
def climb (stage : Stage σ ℓ) (event : EventId) : Nat → Option ElementId → TaskM σ Unit
  | 0, _ => pure ()
  | _, none => pure ()
  | bound + 1, some element => do
      let kind ← TaskM.look fun heap => (heap.event event).kind
      let listeners ← TaskM.survey fun s => (stage.dom s).listenersFor element kind
      let _ ← TaskM.make (.amend event fun event => { event with currentTarget := some element })
      stage.handleAll event listeners
      let state ← TaskM.look fun heap => heap.event event
      if state.propagationStopped || !state.bubbles then pure ()
      else
        let parent ← TaskM.survey fun s => ((stage.dom s).element element).parent
        stage.climb event bound parent

/-- Dispatches an event on an element and tells whether its default action is still allowed. -/
def dispatch (stage : Stage σ ℓ) (bound : Nat) (element : ElementId) (event : EventId) :
    TaskM σ Bool := do
  let _ ← TaskM.make (.amend event fun event => { event with target := some element })
  stage.climb event bound (some element)
  let _ ← TaskM.make (.amend event fun event => { event with currentTarget := none })
  let state ← TaskM.look fun heap => heap.event event
  return !state.defaultPrevented

end Stage

end LiveMarkup
