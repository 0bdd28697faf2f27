import LiveMarkup.Directive.Binding

/-!
# Mounting

An element that declares data is a root.  Its declaration is evaluated into an object, or into a
function that gives one, and its directives are bound over that object.
-/

namespace LiveMarkup

/-- What a data declaration evaluates to. -/
inductive Declaration where
  /-- The data itself. -/
  | static (value : Value)
  /-- A function that is called once for the data. -/
  | factory (function : FunctionId)
  deriving DecidableEq

namespace Declaration

/-- Functions are factories, and other values are the data. -/
def ofValue : Value → Declaration
  | .function id => factory id
  | value => static value

/-- The data. -/
def data {σ : Type} : Declaration → TaskM σ Value
  | static value => pure value
  | factory id => Expr.callClosure id []

end Declaration

namespace Binder

/-- The value of a data declaration, which sees no data and whose reads count for no effect.  A
blank one has none. -/
def declarationValue {σ : Type} (binder : Binder) (declaration : String) : TaskM σ Value :=
  if isBlankText declaration.toList then pure .undefined
  else do
    let expr ← TaskM.ofEval (Expr.parse declaration)
    TaskM.untracked binder.tracker (Expr.eval ⟨binder.tracker, none⟩ Assoc.empty expr)

/-- The object that a data declaration gives a root. -/
def rootData {σ : Type} (binder : Binder) (declaration : String) : TaskM σ ContainerId := do
  let value ← binder.declarationValue declaration
  let value ← TaskM.untracked binder.tracker (Declaration.ofValue value).data
  let value ← TaskM.make (.adopt binder.tracker value)
  match value with
  | .undefined =>
      match ← TaskM.make (.object binder.tracker []) with
      | .container id => return id
      | _ => TaskM.fail (.directive (.dataNotObject .undefined))
  | .container id =>
      if ← TaskM.look fun heap => heap.isArray id then
        TaskM.fail (.directive (.dataNotObject .array))
      else return id
  | other => TaskM.fail (.directive (.dataNotObject (← TaskM.look fun heap => heap.typeName other)))

/-- Mounts elements one after another.  One whose declaration fails is reported and left out. -/
def mountAll (binder : Binder) : List ElementId → TaskM Page Unit
  | [] => pure ()
  | element :: rest => do
      let declaration ← Page.see fun dom => dom.attribute? element binder.dataAttribute
      match ← TaskM.attempt (binder.rootData (declaration.getD "")) with
      | .ok data =>
          binder.bindTree element ⟨binder.tracker, some data⟩ Assoc.empty
          TaskM.alter fun page => { page with roots := page.roots ++ [⟨element, data⟩] }
      | .error fault => TaskM.report binder.tracker fault
      binder.mountAll rest

/-- Mounts every element of a tree that declares data, in document order. -/
def mount (binder : Binder) (root : ElementId) : TaskM Page Unit := do
  let elements ← Page.see fun dom => dom.query root binder.dataAttribute
  binder.mountAll elements

end Binder

end LiveMarkup
