import LiveMarkup.Expr.Method
import LiveMarkup.Expr.Operator
import LiveMarkup.Expr.Parser

/-!
# Evaluation

An expression is evaluated in a scope and with bindings.  A name means a binding first and a
property of the scope's data otherwise.  Reading data is followed, so an effect depends on exactly
what its expression touched.
-/

namespace LiveMarkup

/-- Where an assignment puts its value. -/
inductive Place where
  /-- A variable. -/
  | binding (name : String)
  /-- A property of a value. -/
  | property (base : Value) (key : Key)

namespace Expr

variable {σ : Type}

/-- The value of a literal. -/
def literalValue : Literal → Value
  | .undefined => .undefined
  | .null => .null
  | .bool value => .bool value
  | .number value => .number value
  | .string text => .text text

/-- The value of a name.  A property that is missing is read all the same, so that an effect runs
again when it appears. -/
def lookup (scope : Scope) (bindings : Bindings) (name : String) : TaskM σ Value :=
  match bindings.get? name with
  | some value => pure value
  | none =>
      match scope.data with
      | none => Value.evalFail (.undefinedIdentifier name)
      | some data => do
          let key := Key.ofText name
          let present ← TaskM.has data key
          let value ← TaskM.watch fun heap => heap.get data key
          if present then return value else Value.evalFail (.undefinedIdentifier name)

/-- Reads what a place holds. -/
def readPlace (scope : Scope) (bindings : Bindings) : Place → TaskM σ Value
  | .binding name => lookup scope bindings name
  | .property base key => base.getProperty key

/-- Writes to a place. -/
def writePlace (scope : Scope) (place : Place) (value : Value) : TaskM σ Unit :=
  match place with
  | .binding name =>
      match scope.data with
      | some data => Value.writeContainer data (Key.ofText name) value
      | none => Value.evalFail (.undefinedIdentifier name)
  | .property base key => base.setProperty key value

/-- How functions are called. -/
abbrev Caller (σ : Type) := FunctionId → List Value → TaskM σ Value

/-- Calls a property.  An own property of a container comes before the methods of its type. -/
def callProperty (call : Caller σ) (receiver : Value) (key : Key) (args : List Value) :
    TaskM σ Value := do
  match receiver with
  | .undefined => Value.evalFail (.readOfNullish key .undefined)
  | .null => Value.evalFail (.readOfNullish key .null)
  | .container id =>
      if ← TaskM.has id key then
        match ← TaskM.watch fun heap => heap.get id key with
        | .function function => call function args
        | _ => Value.evalFail (.notCallable (.property key))
      else receiver.callMethod key args
  | _ => receiver.callMethod key args

/-- Calls a value. -/
def callValue (call : Caller σ) (callee : Value) (args : List Value) : TaskM σ Value := do
  match callee with
  | .function function => call function args
  | other => Value.evalFail (.notCallable (.value (← TaskM.look fun heap => heap.typeName other)))

section Evaluation

variable (call : Caller σ) (scope : Scope) (bindings : Bindings)

mutual

/-- Evaluates an expression, given how functions are called.  The arguments of a call come before
what is called. -/
def evalWith : Expr → TaskM σ Value
  | .literal value => pure (literalValue value)
  | .ident name => lookup scope bindings name
  | .array items => do
      let values ← evalItems items
      TaskM.make (.array scope.tracker values)
  | .object entries => do
      let properties ← evalEntries entries
      TaskM.make (.object scope.tracker properties)
  | .member holder property => do
      let base ← evalWith holder
      base.getProperty (Key.ofText property)
  | .index holder position => do
      let base ← evalWith holder
      let place ← evalWith position
      let key ← TaskM.watch fun heap => heap.keyOf place
      base.getProperty key
  | .call (.member holder property) args => do
      let values ← evalItems args
      let receiver ← evalWith holder
      callProperty call receiver (Key.ofText property) values
  | .call (.index holder position) args => do
      let values ← evalItems args
      let receiver ← evalWith holder
      let place ← evalWith position
      let key ← TaskM.watch fun heap => heap.keyOf place
      callProperty call receiver key values
  | .call callee args => do
      let values ← evalItems args
      let value ← evalWith callee
      callValue call value values
  | .unary op operand => do
      let value ← evalWith operand
      TaskM.watch fun heap => heap.unary op value
  | .binary op left right => do
      let first ← evalWith left
      let second ← evalWith right
      TaskM.watch fun heap => heap.binary op first second
  | .logical op left right => do
      let first ← evalWith left
      match op, first.isTruthy with
      | .and, false => return first
      | .or, true => return first
      | .and, true => evalWith right
      | .or, false => evalWith right
  | .conditional test consequent alternate => do
      let value ← evalWith test
      if value.isTruthy then evalWith consequent else evalWith alternate
  | .assign op target value => do
      let place ← evalPlace target
      match op with
      | .set =>
          let result ← evalWith value
          writePlace scope place result
          return result
      | .compound op =>
          let current ← readPlace scope bindings place
          let operand ← evalWith value
          let result ← TaskM.watch fun heap => heap.binary op current operand
          writePlace scope place result
          return result
  | .update step before target => do
      let place ← evalPlace target
      let current ← readPlace scope bindings place
      let old ← TaskM.watch fun heap => heap.toNumber current
      let new := old + step.amount
      writePlace scope place (.number new)
      return .number (if before then new else old)
  | .arrow params body => TaskM.make (.closure ⟨params, body, scope, bindings⟩)
  | .sequence statements => do
      let values ← evalItems statements
      return values.getLast?.getD .undefined

/-- Evaluates expressions from left to right. -/
def evalItems : List Expr → TaskM σ (List Value)
  | [] => pure []
  | item :: rest => do
      let value ← evalWith item
      let values ← evalItems rest
      return value :: values

/-- Evaluates the properties of an object from left to right. -/
def evalEntries : List (String × Expr) → TaskM σ (List (Key × Value))
  | [] => pure []
  | (name, item) :: rest => do
      let value ← evalWith item
      let values ← evalEntries rest
      return (Key.ofText name, value) :: values

/-- Finds the place that an assignment writes to.  What it refers to is evaluated here, once. -/
def evalPlace : Expr → TaskM σ Place
  | .ident name =>
      if bindings.contains name then Value.evalFail (.readOnlyBinding name)
      else pure (.binding name)
  | .member holder property => do
      let base ← evalWith holder
      return .property base (Key.ofText property)
  | .index holder position => do
      let base ← evalWith holder
      let place ← evalWith position
      let key ← TaskM.watch fun heap => heap.keyOf place
      return .property base key
  | _ => Value.evalFail .invalidAssignmentTarget

end

end Evaluation

/-- How deep functions may call one another. -/
def callDepthLimit : Nat := 1048576

/-- Binds arguments to parameters.  A missing argument is undefined and one too many is ignored. -/
def bindArguments (bindings : Bindings) : List String → List Value → Bindings
  | [], _ => bindings
  | name :: names, [] => bindArguments (bindings.insert name .undefined) names []
  | name :: names, value :: values => bindArguments (bindings.insert name value) names values

/-- Calls a function: its body is evaluated where it was written.  The bound is on the calls inside.
-/
def callFunction : Nat → Caller σ
  | 0, _, _ => Value.evalFail .callDepthExceeded
  | depth + 1, id, args => do
      match ← TaskM.look fun heap => heap.closures[id.index]? with
      | none => return .undefined
      | some closure =>
          evalWith (callFunction depth) closure.scope
            (bindArguments closure.bindings closure.params args) closure.body

/-- Calls a function. -/
def callClosure (id : FunctionId) (args : List Value) : TaskM σ Value :=
  callFunction callDepthLimit id args

/-- Evaluates an expression. -/
def eval (scope : Scope) (bindings : Bindings) (expr : Expr) : TaskM σ Value :=
  evalWith (callFunction callDepthLimit) scope bindings expr

end Expr

/-- Reads and evaluates a text. -/
def evaluate {σ : Type} (source : String) (scope : Scope) (bindings : Bindings) :
    TaskM σ Value := do
  let expr ← TaskM.ofEval (Expr.parse source)
  Expr.eval scope bindings expr

end LiveMarkup
