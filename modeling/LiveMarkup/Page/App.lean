import LiveMarkup.Document.Reader
import LiveMarkup.Page.Mount
import LiveMarkup.Reactive.Engine

/-!
# Apps

A document together with the tracker that keeps it in step with its data.  Everything that happens
to an app from the outside runs to its end, effects included, before the next thing happens.
-/

namespace LiveMarkup

/-- A document and what is bound in it. -/
structure App where
  /-- The page with the reactive state. -/
  world : World Page
  /-- How directives are bound. -/
  binder : Binder
  /-- The root of the document. -/
  document : ElementId

namespace App

/-- A document in which nothing is bound yet. -/
def new (config : Config) (trees : List Tree) : App :=
  let (document, dom) := (Dom.empty : Dom Handler).newDocument trees
  ⟨⟨Store.new [config], ⟨dom, []⟩, #[]⟩, Binder.ofConfig ⟨0⟩ config, document⟩

/-- The reactive state. -/
def store (app : App) : Store := app.world.store

/-- The elements. -/
def dom (app : App) : Dom Handler := app.world.surroundings.dom

/-- The mounted roots in order. -/
def roots (app : App) : List Root := app.world.surroundings.roots

/-- The markup of the document. -/
def markup (app : App) : String := app.dom.innerMarkup app.document

/-- Runs a computation. -/
def run (app : App) (computation : TaskM Page Value) : Except Fault Value × App :=
  let (result, world) := app.world.exec computation
  (result, { app with world := world })

/-- Runs a computation for what it does. -/
def act (app : App) (computation : TaskM Page Unit) : App :=
  (app.run do computation; return .undefined).2

/-- Changes the elements. -/
def edit (app : App) (change : Dom Handler → Dom Handler) : App := app.act (Page.edit change)

/-- Mounts the roots in a tree and counts them. -/
def mount (app : App) (root : ElementId) : Nat × App :=
  let mounted := app.act (app.binder.mount root)
  (mounted.roots.length - app.roots.length, mounted)

/-- Binds the whole document over given data and bindings, without looking for roots. -/
def bind (app : App) (scope : Scope) (bindings : Bindings) : App :=
  app.act (app.binder.bindTree app.document scope bindings)

/-- Evaluates an expression over given data. -/
def evaluate (app : App) (source : String) (data : Option ContainerId) : Except Fault Value × App :=
  app.run (LiveMarkup.evaluate source ⟨app.binder.tracker, data⟩ Assoc.empty)

/-- Evaluates a text as a data declaration, and finds the data that it gives. -/
def declare (app : App) (source : String) : Except Fault (Declaration × Value) × App :=
  match app.evaluate source none with
  | (.error fault, app) => (.error fault, app)
  | (.ok value, app) =>
      let declaration := Declaration.ofValue value
      let (result, app) := app.run declaration.data
      (result.map fun data => (declaration, data), app)

/-- Dispatches a new event on an element and gives it back with whether its default action is
allowed. -/
def dispatch (app : App) (element : ElementId) (kind : String) (bubbles : Bool) :
    Bool × Event × App :=
  let (id, heap) := app.store.heap.newEvent (Event.fresh kind bubbles)
  let app := { app with world := app.world.mapStore fun store => { store with heap := heap } }
  let app := app.act do let _ ← Page.dispatch element id
  let event := app.store.heap.event id
  (!event.defaultPrevented, event, app)

/-- Takes the faults that were reported since the last time. -/
def takeFaults (app : App) : List Fault × App :=
  let (faults, world) := app.world.drain app.binder.tracker
  (faults, { app with world := world })

end App

/-- Mounts every root of a document in the default configuration. -/
def App.start (trees : List Tree) : App :=
  let app := App.new Config.default trees
  (app.mount app.document).2

end LiveMarkup
