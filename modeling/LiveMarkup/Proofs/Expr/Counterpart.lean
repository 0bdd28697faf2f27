import LiveMarkup.Expr.Evaluation
import LiveMarkup.Proofs.Reactive.Simulation

/-!
# Evaluation in renamed heaps

Evaluating an expression with the counterparts of a scope and of bindings yields the counterpart of
its value, as long as what the evaluation looks at corresponds.  The induction follows the syntax;
calls go through an induction on how deep they may nest.
-/

namespace LiveMarkup

/-- The counterpart of a place. -/
def Renaming.place (ρ : Renaming) : Place → Place
  | .binding name => .binding name
  | .property base key => .property (ρ.value base) key

namespace Value

variable {σ : Type} {ρ : Renaming} {reads probes : Access → Prop}

theorem getProperty_simulates (base : Value) (key : Key) :
    TaskM.Simulates (σ := σ) ρ reads probes ρ.value (base.getProperty key)
      ((ρ.value base).getProperty key) := by
  have plain (property : Event → Value) (unchanged : ∀ event, ρ.value (property event) = property event)
      (id : EventId) : TaskM.Simulates (σ := σ) ρ reads probes ρ.value
        (TaskM.look fun heap => property (heap.event id))
        (TaskM.look fun heap => property (heap.event (ρ.event id))) :=
    .look fun first second mirrors => by rw [mirrors.event, unchanged]
  cases base with
  | undefined => exact .fail _
  | null => exact .fail _
  | container id => exact .watch fun _ _ mirrors => mirrors.get id key
  | text content =>
      refine .pure ?_
      cases key with
      | index position =>
          simp only [textProperty]
          split
          · rfl
          · rfl
      | name text =>
          simp only [textProperty]
          split
          · rfl
          · rfl
  | event id =>
      refine plain (fun event => event.property key) (fun event => ?_) id
      simp only [Event.property]
      repeat' split
      all_goals rfl
  | function id =>
      simp only [getProperty, Renaming.value]
      split
      · refine .look fun first second mirrors => ?_
        rw [Heap.arity, mirrors.closure, Option.map_map]
        rfl
      · exact .pure rfl
  | bool value => exact .pure rfl
  | number value => exact .pure rfl

/-- A computation that starts with a write is not followed. -/
theorem writeContainer_simulates (id : ContainerId) (key : Key) (value : Value)
    (other : TaskM σ Unit) :
    TaskM.Simulates ρ reads probes (fun nothing => nothing) (writeContainer id key value) other :=
  fun _ _ _ _ _ _ _ _ _ observed => by contradiction

theorem setProperty_simulates (base : Value) (key : Key) (value : Value) :
    TaskM.Simulates (σ := σ) ρ reads probes (fun nothing => nothing) (base.setProperty key value)
      ((ρ.value base).setProperty key (ρ.value value)) := by
  cases base with
  | undefined => exact .fail _
  | null => exact .fail _
  | container id => exact writeContainer_simulates id key value _
  | _ => exact .pure rfl

theorem argument_map (args : List Value) (position : Nat) :
    argument (args.map ρ.value) position = ρ.value (argument args position) := by
  rw [argument, argument, List.getElem?_map]
  cases args[position]? <;> rfl

/-- Two methods that are both there, the second the counterpart of the first as long as the receiver
looks as it does now, or both missing. -/
def MethodsMatch (ρ : Renaming) (reads probes : Access → Prop) (here there : Store)
    (first second : Option (TaskM σ Value)) : Prop :=
  (first = none ∧ second = none) ∨ ∃ method other, first = some method ∧ second = some other ∧
    ∀ next otherNext, (∀ result here there, here.heap.Mirrors ρ reads probes there.heap →
        Task.Matches ρ reads probes (next result) (otherNext (result.map ρ.value)) here there) →
      Task.Matches ρ reads probes (method next) (other otherNext) here there

theorem MethodsMatch.of_simulates {here there : Store} {method other : TaskM σ Value}
    (mirrors : here.heap.Mirrors ρ reads probes there.heap)
    (simulates : TaskM.Simulates ρ reads probes ρ.value method other) :
    MethodsMatch ρ reads probes here there (some method) (some other) :=
  .inr ⟨method, other, rfl, rfl, fun next otherNext later =>
    simulates next otherNext later here there mirrors⟩

theorem appendAll_simulates (id : ContainerId) (length : Nat) (values : List Value) :
    TaskM.Simulates (σ := σ) ρ reads probes (fun length => length) (appendAll id length values)
      (appendAll (ρ.container id) length (values.map ρ.value)) := by
  cases values with
  | nil => exact .pure rfl
  | cons value rest => exact fun _ _ _ _ _ _ _ _ _ observed => by contradiction

/-- What is looked at in two heaps that mirror each other leaves them so. -/
theorem mirrors_track {here there : Store} (mirrors : here.heap.Mirrors ρ reads probes there.heap)
    (accesses others : Array Access) :
    (here.track accesses).heap.Mirrors ρ reads probes (there.track others).heap := by
  rw [Store.heap_track, Store.heap_track]
  exact mirrors

theorem includes_map (items args : List Value) :
    ((items.map ρ.value).any fun item => item.sameValue (argument (args.map ρ.value) 0)) =
      items.any fun item => item.sameValue (argument args 0) := by
  rw [List.any_map, argument_map]
  exact congrArg items.any (funext fun item => ρ.sameValue_value item (argument args 0))

/-- Joining an array with a separator that is known gives the same text. -/
theorem join_matches {id : ContainerId} {here there : Store} (separator : String)
    (isArray : here.heap.isArray id = true)
    (mirrors : here.heap.Mirrors ρ reads probes there.heap)
    {next otherNext : Except Fault Value → Task σ}
    (later : ∀ result here there, here.heap.Mirrors ρ reads probes there.heap →
      Task.Matches ρ reads probes (next result) (otherNext (result.map ρ.value)) here there) :
    Task.Matches ρ reads probes
      ((do return .text (← TaskM.watch fun heap => heap.join separator id) : TaskM σ Value) next)
      ((do return .text (← TaskM.watch fun heap => heap.join separator (ρ.container id)) :
        TaskM σ Value) otherNext) here there :=
  Task.Matches.watch (mirrors.join isArray separator) fun text accesses others =>
    later (.ok (.text text)) _ _ (mirrors_track mirrors accesses others)

/-- The methods of an array read its length or its items first. -/
theorem arrayMethod?_match {id : ContainerId} {here there : Store}
    (isArray : here.heap.isArray id = true)
    (mirrors : here.heap.Mirrors ρ reads probes there.heap) (name : String) (args : List Value) :
    MethodsMatch (σ := σ) ρ reads probes here there (arrayMethod? id name args)
      (arrayMethod? (ρ.container id) name (args.map ρ.value)) := by
  unfold arrayMethod?
  by_cases push : name = "push"
  · rw [if_pos push, if_pos push]
    refine .inr ⟨_, _, rfl, rfl, fun next otherNext later => ?_⟩
    refine Task.Matches.watch (mirrors.length isArray) fun length accesses others => ?_
    have rest : TaskM.Simulates (σ := σ) ρ reads probes ρ.value
        (do return .ofNat (← appendAll id length args))
        (do return .ofNat (← appendAll (ρ.container id) length (args.map ρ.value))) :=
      (appendAll_simulates id length args).bind fun _ => .pure rfl
    exact rest next otherNext later _ _ (mirrors_track mirrors accesses others)
  rw [if_neg push, if_neg push]
  by_cases pop : name = "pop"
  · rw [if_pos pop, if_pos pop]
    exact .of_simulates mirrors (.pop id _)
  rw [if_neg pop, if_neg pop]
  by_cases includes : name = "includes"
  · rw [if_pos includes, if_pos includes]
    refine .inr ⟨_, _, rfl, rfl, fun next otherNext later => ?_⟩
    refine Task.Matches.watch (mirrors.items isArray) fun items accesses others => ?_
    have rest : TaskM.Simulates (σ := σ) ρ reads probes ρ.value
        (pure (.bool (items.any fun item => item.sameValue (argument args 0))))
        (pure (.bool ((items.map ρ.value).any fun item =>
          item.sameValue (argument (args.map ρ.value) 0)))) :=
      .pure (congrArg Value.bool (includes_map items args))
    exact rest next otherNext later _ _ (mirrors_track mirrors accesses others)
  rw [if_neg includes, if_neg includes]
  by_cases join : name = "join"
  · rw [if_pos join, if_pos join]
    refine .inr ⟨_, _, rfl, rfl, fun next otherNext later => ?_⟩
    rw [argument_map]
    cases given : argument args 0 with
    | undefined => exact join_matches "," isArray mirrors later
    | _ =>
        refine Task.Matches.watch (mirrors.display _) fun separator accesses others => ?_
        refine join_matches separator ?_ (mirrors_track mirrors accesses others) later
        rw [Store.heap_track]
        exact isArray
  · rw [if_neg join, if_neg join]
    exact .inl ⟨rfl, rfl⟩

theorem textMethod?_match {here there : Store} (mirrors : here.heap.Mirrors ρ reads probes there.heap)
    (text name : String) (args : List Value) :
    MethodsMatch (σ := σ) ρ reads probes here there (textMethod? text name args)
      (textMethod? text name (args.map ρ.value)) := by
  unfold textMethod?
  split
  · exact .of_simulates mirrors (.pure rfl)
  split
  · exact .of_simulates mirrors (.pure rfl)
  split
  · exact .of_simulates mirrors (.pure rfl)
  split
  · rw [argument_map]
    exact .of_simulates mirrors ((TaskM.Simulates.watch fun _ _ mirrors =>
      mirrors.display (argument args 0)).bind fun _ => .pure rfl)
  · exact .inl ⟨rfl, rfl⟩

theorem eventMethod?_match {here there : Store}
    (mirrors : here.heap.Mirrors ρ reads probes there.heap) (id : EventId) (name : String) :
    MethodsMatch (σ := σ) ρ reads probes here there (eventMethod? id name)
      (eventMethod? (ρ.event id) name) := by
  unfold eventMethod?
  split
  · exact .of_simulates mirrors ((TaskM.Simulates.amend id _).bind fun _ => .pure rfl)
  split
  · exact .of_simulates mirrors ((TaskM.Simulates.amend id _).bind fun _ => .pure rfl)
  · exact .inl ⟨rfl, rfl⟩

theorem ownMethod?_match {here there : Store} (mirrors : here.heap.Mirrors ρ reads probes there.heap)
    (receiver : Value) (name : String) (args : List Value) :
    MethodsMatch (σ := σ) ρ reads probes here there
      (ownMethod? (here.heap.typeName receiver = .array) receiver name args)
      (ownMethod? (here.heap.typeName receiver = .array) (ρ.value receiver) name
        (args.map ρ.value)) := by
  cases receiver with
  | container id =>
      simp only [ownMethod?, Renaming.value, Heap.typeName]
      by_cases isArray : here.heap.isArray id = true
      · simp only [isArray, if_true, decide_true]
        exact arrayMethod?_match isArray mirrors name args
      · simp only [isArray]
        exact .inl ⟨rfl, rfl⟩
  | text content => exact textMethod?_match mirrors content name args
  | event id => exact eventMethod?_match mirrors id name
  | _ => exact .inl ⟨rfl, rfl⟩

theorem typeName_mirrors {first second : Heap} (mirrors : first.Mirrors ρ reads probes second)
    (value : Value) : second.typeName (ρ.value value) = first.typeName value := by
  cases value with
  | container id => simp only [Renaming.value, Heap.typeName, mirrors.kind]
  | _ => rfl

theorem callMethod_simulates (receiver : Value) (key : Key) (args : List Value) :
    TaskM.Simulates (σ := σ) ρ reads probes ρ.value (receiver.callMethod key args)
      ((ρ.value receiver).callMethod key (args.map ρ.value)) := by
  cases key with
  | index position => exact .fail _
  | name name =>
      intro next otherNext later here there mirrors
      refine Task.Matches.look ?_
      dsimp only
      rw [typeName_mirrors mirrors receiver]
      rcases ownMethod?_match (σ := σ) mirrors receiver name args with
        ⟨none, otherNone⟩ | ⟨method, other, some, otherSome, matched⟩
      · rw [none, otherNone]
        dsimp only
        split
        · have shown : TaskM.Simulates (σ := σ) ρ reads probes ρ.value
              (do return .text (← TaskM.watch fun heap => heap.display receiver))
              (do return .text (← TaskM.watch fun heap => heap.display (ρ.value receiver))) :=
            (TaskM.Simulates.watch fun _ _ mirrors => mirrors.display receiver).bind
              fun _ => .pure rfl
          exact shown next otherNext later here there mirrors
        · exact later _ here there mirrors
      · rw [some, otherSome]
        exact matched next otherNext later

end Value

namespace Expr

variable {σ : Type} {ρ : Renaming} {reads probes : Access → Prop}

theorem get?_bindings (bindings : Bindings) (name : String) :
    (ρ.bindings bindings).get? name = (bindings.get? name).map ρ.value :=
  Assoc.get?_mapValues ρ.value bindings name

theorem lookup_simulates (scope : Scope) (bindings : Bindings) (name : String) :
    TaskM.Simulates (σ := σ) ρ reads probes ρ.value (lookup scope bindings name)
      (lookup (ρ.scope scope) (ρ.bindings bindings) name) := by
  unfold lookup
  rw [get?_bindings]
  cases bindings.get? name with
  | some value => exact .pure rfl
  | none =>
      obtain ⟨tracker, data⟩ := scope
      cases data with
      | none => exact .fail _
      | some data =>
          refine (TaskM.Simulates.has data (Key.ofText name)).bind fun present => ?_
          refine (TaskM.Simulates.watch fun _ _ mirrors =>
            mirrors.get data (Key.ofText name)).bind fun value => ?_
          split
          · exact .pure rfl
          · exact .fail _

theorem readPlace_simulates (scope : Scope) (bindings : Bindings) (place : Place) :
    TaskM.Simulates (σ := σ) ρ reads probes ρ.value (readPlace scope bindings place)
      (readPlace (ρ.scope scope) (ρ.bindings bindings) (ρ.place place)) := by
  cases place with
  | binding name => exact lookup_simulates scope bindings name
  | property base key => exact Value.getProperty_simulates base key

theorem writePlace_simulates (scope : Scope) (place : Place) (value : Value) :
    TaskM.Simulates (σ := σ) ρ reads probes (fun nothing => nothing) (writePlace scope place value)
      (writePlace (ρ.scope scope) (ρ.place place) (ρ.value value)) := by
  cases place with
  | binding name =>
      obtain ⟨tracker, data⟩ := scope
      cases data with
      | none => exact .fail _
      | some data => exact Value.writeContainer_simulates data (Key.ofText name) value _
  | property base key => exact Value.setProperty_simulates base key value

section Calls

variable {call other : Caller σ}
  (calls : ∀ id args, TaskM.Simulates ρ reads probes ρ.value (call id args)
    (other (ρ.function id) (args.map ρ.value)))

include calls

theorem callProperty_simulates (receiver : Value) (key : Key) (args : List Value) :
    TaskM.Simulates ρ reads probes ρ.value (callProperty call receiver key args)
      (callProperty other (ρ.value receiver) key (args.map ρ.value)) := by
  cases receiver with
  | undefined => exact .fail _
  | null => exact .fail _
  | container id =>
      refine (TaskM.Simulates.has id key).bind fun present => ?_
      split
      · refine (TaskM.Simulates.watch fun _ _ mirrors => mirrors.get id key).bind fun value => ?_
        cases value with
        | function id => exact calls id args
        | _ => exact .fail _
      · exact Value.callMethod_simulates (.container id) key args
  | _ => exact Value.callMethod_simulates _ key args

theorem callValue_simulates (callee : Value) (args : List Value) :
    TaskM.Simulates ρ reads probes ρ.value (callValue call callee args)
      (callValue other (ρ.value callee) (args.map ρ.value)) := by
  have refused (value : Value) : TaskM.Simulates (σ := σ) ρ reads probes ρ.value
      (do Value.evalFail (.notCallable (.value (← TaskM.look fun heap => heap.typeName value))))
      (do Value.evalFail (.notCallable
        (.value (← TaskM.look fun heap => heap.typeName (ρ.value value))))) := by
    have named : TaskM.Simulates (σ := σ) ρ reads probes (fun name => name)
        (TaskM.look fun heap => heap.typeName value)
        (TaskM.look fun heap => heap.typeName (ρ.value value)) :=
      .look fun _ _ mirrors => Value.typeName_mirrors mirrors value
    exact named.bind fun _ => .fail _
  cases callee with
  | function id => exact calls id args
  | _ => exact refused _

set_option linter.unusedSectionVars false in
mutual

theorem evalWith_simulates (scope : Scope) (bindings : Bindings) : (expr : Expr) →
    TaskM.Simulates ρ reads probes ρ.value (evalWith call scope bindings expr)
      (evalWith other (ρ.scope scope) (ρ.bindings bindings) expr)
  | .literal value => .pure (by cases value <;> rfl)
  | .ident name => lookup_simulates scope bindings name
  | .array items => (evalItems_simulates scope bindings items).bind fun values =>
      TaskM.Simulates.array scope.tracker values
  | .object entries => (evalEntries_simulates scope bindings entries).bind fun properties =>
      TaskM.Simulates.object scope.tracker properties
  | .member holder property => (evalWith_simulates scope bindings holder).bind fun base =>
      Value.getProperty_simulates base (Key.ofText property)
  | .index holder position => by
      refine (evalWith_simulates scope bindings holder).bind fun base => ?_
      refine (evalWith_simulates scope bindings position).bind fun place => ?_
      refine (TaskM.Simulates.watch fun _ _ mirrors => mirrors.keyOf place).bind fun key => ?_
      exact Value.getProperty_simulates base key
  | .call callee args => by
      cases callee with
      | member holder property =>
          refine (evalItems_simulates scope bindings args).bind fun values => ?_
          refine (evalWith_simulates scope bindings holder).bind fun receiver => ?_
          exact callProperty_simulates calls receiver (Key.ofText property) values
      | index holder position =>
          refine (evalItems_simulates scope bindings args).bind fun values => ?_
          refine (evalWith_simulates scope bindings holder).bind fun receiver => ?_
          refine (evalWith_simulates scope bindings position).bind fun place => ?_
          refine (TaskM.Simulates.watch fun _ _ mirrors => mirrors.keyOf place).bind fun key => ?_
          exact callProperty_simulates calls receiver key values
      | _ =>
          refine (evalItems_simulates scope bindings args).bind fun values => ?_
          refine (evalWith_simulates scope bindings _).bind fun value => ?_
          exact callValue_simulates calls value values
  | .unary op operand => (evalWith_simulates scope bindings operand).bind fun value =>
      .watch fun _ _ mirrors => mirrors.unary op value
  | .binary op left right => (evalWith_simulates scope bindings left).bind fun first =>
      (evalWith_simulates scope bindings right).bind fun second =>
        .watch fun _ _ mirrors => mirrors.binary op first second
  | .logical op left right => by
      refine (evalWith_simulates scope bindings left).bind fun first => ?_
      rw [ρ.isTruthy_value]
      cases op with
      | and =>
          cases first.isTruthy with
          | false => exact .pure rfl
          | true => exact evalWith_simulates scope bindings right
      | or =>
          cases first.isTruthy with
          | false => exact evalWith_simulates scope bindings right
          | true => exact .pure rfl
  | .conditional test consequent alternate => by
      refine (evalWith_simulates scope bindings test).bind fun value => ?_
      rw [ρ.isTruthy_value]
      split
      · exact evalWith_simulates scope bindings consequent
      · exact evalWith_simulates scope bindings alternate
  | .assign op target value => by
      refine (evalPlace_simulates scope bindings target).bind fun place => ?_
      cases op with
      | set =>
          refine (evalWith_simulates scope bindings value).bind fun result => ?_
          exact (writePlace_simulates scope place result).bind fun _ => .pure rfl
      | compound op =>
          refine (readPlace_simulates scope bindings place).bind fun current => ?_
          refine (evalWith_simulates scope bindings value).bind fun operand => ?_
          refine (TaskM.Simulates.watch fun _ _ mirrors =>
            mirrors.binary op current operand).bind fun result => ?_
          exact (writePlace_simulates scope place result).bind fun _ => .pure rfl
  | .update step before target => by
      refine (evalPlace_simulates scope bindings target).bind fun place => ?_
      refine (readPlace_simulates scope bindings place).bind fun current => ?_
      refine (TaskM.Simulates.watch fun _ _ mirrors => mirrors.toNumber current).bind fun old => ?_
      exact (writePlace_simulates scope place _).bind fun _ => .pure rfl
  | .arrow params body => TaskM.Simulates.closure ⟨params, body, scope, bindings⟩
  | .sequence statements => by
      refine (evalItems_simulates scope bindings statements).bind fun values => .pure ?_
      rw [List.getLast?_map]
      cases values.getLast? <;> rfl

theorem evalItems_simulates (scope : Scope) (bindings : Bindings) : (items : List Expr) →
    TaskM.Simulates ρ reads probes (List.map ρ.value) (evalItems call scope bindings items)
      (evalItems other (ρ.scope scope) (ρ.bindings bindings) items)
  | [] => .pure rfl
  | item :: rest => (evalWith_simulates scope bindings item).bind fun _ =>
      (evalItems_simulates scope bindings rest).bind fun _ => .pure rfl

theorem evalEntries_simulates (scope : Scope) (bindings : Bindings) :
    (entries : List (String × Expr)) →
    TaskM.Simulates ρ reads probes (List.map fun entry => (entry.1, ρ.value entry.2))
      (evalEntries call scope bindings entries)
      (evalEntries other (ρ.scope scope) (ρ.bindings bindings) entries)
  | [] => .pure rfl
  | (_, item) :: rest => (evalWith_simulates scope bindings item).bind fun _ =>
      (evalEntries_simulates scope bindings rest).bind fun _ => .pure rfl

theorem evalPlace_simulates (scope : Scope) (bindings : Bindings) : (target : Expr) →
    TaskM.Simulates ρ reads probes ρ.place (evalPlace call scope bindings target)
      (evalPlace other (ρ.scope scope) (ρ.bindings bindings) target)
  | .ident name => by
      have known : (ρ.bindings bindings).contains name = bindings.contains name :=
        Assoc.contains_mapValues ρ.value bindings name
      simp only [evalPlace, known]
      split
      · exact .fail _
      · exact .pure rfl
  | .member holder property => (evalWith_simulates scope bindings holder).bind fun _ => .pure rfl
  | .index holder position => by
      refine (evalWith_simulates scope bindings holder).bind fun base => ?_
      refine (evalWith_simulates scope bindings position).bind fun place => ?_
      exact (TaskM.Simulates.watch fun _ _ mirrors => mirrors.keyOf place).bind fun _ => .pure rfl
  | .literal _ | .array _ | .object _ | .call _ _ | .unary _ _ | .binary _ _ _ | .logical _ _ _
  | .conditional _ _ _ | .assign _ _ _ | .update _ _ _ | .arrow _ _ | .sequence _ => .fail _

end

end Calls

theorem bindArguments_bindings (bindings : Bindings) (params : List String) (args : List Value) :
    bindArguments (ρ.bindings bindings) params (args.map ρ.value) =
      ρ.bindings (bindArguments bindings params args) := by
  induction params generalizing bindings args with
  | nil => rfl
  | cons name names ih =>
      have bound (value : Value) : (ρ.bindings bindings).insert name (ρ.value value) =
          ρ.bindings (bindings.insert name value) :=
        (Assoc.mapValues_insert ρ.value bindings name value).symm
      cases args with
      | nil =>
          rw [List.map_nil, bindArguments, bindArguments, ← ih, ← bound]
          rfl
      | cons value values => rw [List.map_cons, bindArguments, bindArguments, ← ih, ← bound]

/-- Calls of counterparts have counterparts as their values, however deep they may nest. -/
theorem callFunction_simulates (depth : Nat) (id : FunctionId) (args : List Value) :
    TaskM.Simulates (σ := σ) ρ reads probes ρ.value (callFunction depth id args)
      (callFunction depth (ρ.function id) (args.map ρ.value)) := by
  induction depth generalizing id args with
  | zero => exact .fail _
  | succ depth ih =>
      have found : TaskM.Simulates (σ := σ) ρ reads probes (Option.map ρ.closure)
          (TaskM.look fun heap => heap.closures[id.index]?)
          (TaskM.look fun heap => heap.closures[(ρ.function id).index]?) :=
        .look fun _ _ mirrors => mirrors.closure id
      refine found.bind fun closure => ?_
      cases closure with
      | none => exact .pure rfl
      | some closure =>
          have body := evalWith_simulates (fun id args => ih id args) closure.scope
            (bindArguments closure.bindings closure.params args) closure.body
          rw [← bindArguments_bindings] at body
          exact body

/-- Evaluating the counterpart of an expression's surroundings yields the counterpart of its value.
-/
theorem eval_simulates (scope : Scope) (bindings : Bindings) (expr : Expr) :
    TaskM.Simulates (σ := σ) ρ reads probes ρ.value (eval scope bindings expr)
      (eval (ρ.scope scope) (ρ.bindings bindings) expr) :=
  evalWith_simulates (fun id args => callFunction_simulates callDepthLimit id args) scope bindings
    expr

end Expr

end LiveMarkup
