import LiveMarkup.Directive.Attribute
import LiveMarkup.Directive.Repeat
import LiveMarkup.Page.Basic

/-!
# Binding directives

Binding a tree ties every directive in it to the data.  `text` and `show` become effects that keep
an element in step with the data, `on` becomes a listener, and `for` becomes an effect that stamps
the first child of its element once for every item and binds each copy.
-/

namespace LiveMarkup

/-- What directives are bound with. -/
structure Binder where
  /-- The tracker of the effects and reports. -/
  tracker : TrackerId
  /-- The text with which the names of directive attributes begin. -/
  attributePrefix : String
  /-- The attribute that declares data. -/
  dataAttribute : String
  deriving DecidableEq, Repr

/-- A binder of a tracker with a configuration. -/
def Binder.ofConfig (tracker : TrackerId) (config : Config) : Binder :=
  ⟨tracker, config.attributePrefix, config.attributeName "data"⟩

/-- Whether the children of an element are still to be bound. -/
inductive Descent where
  /-- The children are to be bound. -/
  | children
  /-- A directive has taken the children over. -/
  | claimed
  deriving DecidableEq, Repr

namespace Binder

/-- Shows the value of an expression as the text of an element. -/
def bindText (binder : Binder) (element : ElementId) (directive : Directive) (scope : Scope)
    (bindings : Bindings) : TaskM Page Descent := do
  let expr ← TaskM.ofEval (Expr.parse directive.expression)
  let _ ← TaskM.createEffect binder.tracker do
    let value ← Expr.eval scope bindings expr
    let text ← TaskM.watch fun heap => heap.shownText value
    Page.edit fun dom => dom.setText element text
    return .undefined
  return .children

/-- Shows an element while an expression holds, and hides it otherwise. -/
def bindShow (binder : Binder) (element : ElementId) (directive : Directive) (scope : Scope)
    (bindings : Bindings) : TaskM Page Descent := do
  let expr ← TaskM.ofEval (Expr.parse directive.expression)
  let _ ← TaskM.createEffect binder.tracker do
    let value ← Expr.eval scope bindings expr
    Page.edit fun dom => dom.setStyle element "display" (if value.isTruthy then "block" else "none")
    return .undefined
  return .children

/-- Evaluates an expression whenever an event arrives. -/
def bindOn (binder : Binder) (element : ElementId) (directive : Directive) (scope : Scope)
    (bindings : Bindings) : TaskM Page Descent := do
  let kind := directive.argument.getD ""
  if kind.isEmpty then TaskM.fail (.directive .missingEventName)
  let expr ← TaskM.ofEval (Expr.parse directive.expression)
  let handler : Handler :=
    ⟨binder.tracker, expr, scope, bindings, directive.hasModifier "prevent",
      directive.hasModifier "stop"⟩
  Page.edit fun dom => dom.listen element kind handler
  return .children

/-- How an element is bound with everything below it. -/
abbrev SubtreeBinder := ElementId → Scope → Bindings → TaskM Page Unit

/-- Stamps a copy of the template for every item, each bound before it is put in its place. -/
def stampAll (bindCopy : SubtreeBinder) (host : ElementId) (template : Child) (name : String)
    (scope : Scope) (bindings : Bindings) : List Value → TaskM Page Unit
  | [] => pure ()
  | item :: rest => do
      let copy ← Page.see fun dom => (dom.copy template).1
      Page.edit fun dom => (dom.copy template).2
      match copy with
      | .text _ => pure ()
      | .element id => bindCopy id scope (bindings.insert name item)
      Page.edit fun dom => dom.append host copy
      stampAll bindCopy host template name scope bindings rest

/-- What the effect of a `for` directive does: it clears the element and stamps the template for
every item of the list, if it is one. -/
def stamp (bindCopy : SubtreeBinder) (host : ElementId) (template : Child) (name : String)
    (source : Expr) (scope : Scope) (bindings : Bindings) : TaskM Page Value := do
  Page.edit fun dom => dom.clear host
  let value ← Expr.eval scope bindings source
  match ← TaskM.look fun heap => heap.array? value with
  | none => return .undefined
  | some list =>
      let items ← TaskM.watch fun heap => heap.items list
      stampAll bindCopy host template name scope bindings items
      return .undefined

/-- Repeats the first child of an element for every item of a list.  Without a child there is
nothing to repeat. -/
def bindRepeat (binder : Binder) (bindCopy : SubtreeBinder) (element : ElementId)
    (directive : Directive) (scope : Scope) (bindings : Bindings) : TaskM Page Descent := do
  let (name, source) ←
    TaskM.ofExcept ((Directive.splitRepeat directive.expression).mapError Fault.directive)
  let expr ← TaskM.ofEval (Expr.parse source)
  match ← Page.see fun dom => (dom.takeFirst element).1 with
  | none => return .claimed
  | some template =>
      Page.edit fun dom => (dom.takeFirst element).2
      let _ ← TaskM.createEffect binder.tracker
        (stamp bindCopy element template name expr scope bindings)
      return .claimed

/-- Binds one directive. -/
def bindDirective (binder : Binder) (bindCopy : SubtreeBinder) (element : ElementId)
    (directive : Directive) (scope : Scope) (bindings : Bindings) : TaskM Page Descent :=
  match directive.kind with
  | .data => pure .children
  | .text => binder.bindText element directive scope bindings
  | .visible => binder.bindShow element directive scope bindings
  | .on => binder.bindOn element directive scope bindings
  | .repeated => binder.bindRepeat bindCopy element directive scope bindings
  | .unknown => pure .children

/-- Binds the directives among some attributes in order.  One that fails is reported and the others
are still bound; a `for` directive claims the children even then. -/
def bindDirectives (binder : Binder) (bindCopy : SubtreeBinder) (element : ElementId)
    (scope : Scope) (bindings : Bindings) : Descent → List (String × String) → TaskM Page Descent
  | descent, [] => pure descent
  | descent, (name, value) :: rest => do
      match Directive.ofAttribute? binder.attributePrefix name value with
      | none => binder.bindDirectives bindCopy element scope bindings descent rest
      | some directive =>
          let binding := binder.bindDirective bindCopy element directive scope bindings
          match ← TaskM.attempt binding with
          | .ok .claimed => binder.bindDirectives bindCopy element scope bindings .claimed rest
          | .ok .children => binder.bindDirectives bindCopy element scope bindings descent rest
          | .error fault =>
              TaskM.report binder.tracker fault
              let descent := if directive.kind = .repeated then .claimed else descent
              binder.bindDirectives bindCopy element scope bindings descent rest

/-- Binds the children that do not declare data of their own. -/
def bindChildren (binder : Binder) (bindChild : SubtreeBinder) (scope : Scope)
    (bindings : Bindings) : List ElementId → TaskM Page Unit
  | [] => pure ()
  | child :: rest => do
      if ← Page.see fun dom => dom.hasAttribute child binder.dataAttribute then pure ()
      else bindChild child scope bindings
      binder.bindChildren bindChild scope bindings rest

/-- Binds an element and what is below it, as far down as the bound.  Copies of a template are no
deeper than the element that they are stamped in. -/
def bindWithin (binder : Binder) : Nat → SubtreeBinder
  | 0, _, _, _ => pure ()
  | depth + 1, element, scope, bindings => do
      let attributes ← Page.see fun dom => (dom.element element).attributes.entries
      let below := binder.bindWithin depth
      match ← binder.bindDirectives below element scope bindings .children attributes with
      | .claimed => pure ()
      | .children =>
          let children ← Page.see fun dom => dom.childElements element
          binder.bindChildren below scope bindings children

/-- Binds an element and everything below it. -/
def bindTree (binder : Binder) (element : ElementId) (scope : Scope) (bindings : Bindings) :
    TaskM Page Unit := do
  let depth ← Page.see fun dom => dom.size
  binder.bindWithin depth element scope bindings

end Binder

end LiveMarkup
