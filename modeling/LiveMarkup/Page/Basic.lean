import LiveMarkup.Document.Dispatch
import LiveMarkup.Expr.Evaluation

/-!
# Pages

The surroundings in which bound directives run: a live document whose listeners are the handlers of
`on` directives, and the roots that have been mounted.
-/

namespace LiveMarkup

/-- What an `on` directive does when its event arrives. -/
structure Handler where
  /-- The tracker that it reports to. -/
  tracker : TrackerId
  /-- The expression to evaluate. -/
  expr : Expr
  /-- The scope around the directive. -/
  scope : Scope
  /-- The bindings around the directive. -/
  bindings : Bindings
  /-- Whether it prevents the default action. -/
  prevent : Bool
  /-- Whether it stops the event on its way up. -/
  stop : Bool

/-- An element whose directives are bound, with its data. -/
structure Root where
  /-- The element that declares the data. -/
  element : ElementId
  /-- The data. -/
  data : ContainerId
  deriving DecidableEq, Repr

/-- A live document with what has been mounted in it. -/
structure Page where
  /-- All elements. -/
  dom : Dom Handler
  /-- The mounted roots in order. -/
  roots : List Root

namespace Page

/-- A page without elements. -/
def empty : Page := ⟨Dom.empty, []⟩

/-- Changes the document. -/
def mapDom (change : Dom Handler → Dom Handler) (page : Page) : Page :=
  { page with dom := change page.dom }

/-- Changes the document of the page that a task runs in. -/
def edit (change : Dom Handler → Dom Handler) : TaskM Page Unit := TaskM.alter (mapDom change)

/-- Looks at the document of the page that a task runs in. -/
def see {α : Type} (observe : Dom Handler → α) : TaskM Page α :=
  TaskM.survey fun page => observe page.dom

end Page

/-- Handles an event: the modifiers act first, then the expression is evaluated with the event as
`$event`.  Its reads count for no effect, and its fault is reported. -/
def Handler.handle (handler : Handler) (event : EventId) : TaskM Page Unit := do
  if handler.prevent then
    let _ ← TaskM.make (.amend event fun event => { event with defaultPrevented := true })
  if handler.stop then
    let _ ← TaskM.make (.amend event fun event => { event with propagationStopped := true })
  let bindings := handler.bindings.insert "$event" (.event event)
  let block : TaskM Page Value := Expr.eval handler.scope bindings handler.expr
  match ← TaskM.attempt (TaskM.untracked handler.tracker block) with
  | .ok _ => pure ()
  | .error fault => TaskM.report handler.tracker fault

namespace Page

/-- A page as the stage of its events. -/
def stage : Stage Page Handler := ⟨Page.dom, Handler.handle⟩

/-- Dispatches an event on an element of the page.  Handlers never put an element that was there
below another one, so the way up is no longer than the number of elements. -/
def dispatch (element : ElementId) (event : EventId) : TaskM Page Bool := do
  let bound ← see fun dom => dom.size + 1
  stage.dispatch bound element event

end Page

end LiveMarkup
