import LiveMarkup.Expr.Evaluation
import LiveMarkup.Proofs.Reactive.Origin

/-!
# Programs that have been read do not fail as texts

A text may be no program, and then reading it fails.  Once it has been read, the evaluation has no
such fault left: every assignment has a place to write to, and so have those in the functions that
are called on the way.
-/

namespace LiveMarkup

/-- Whether a fault says that a text is no program. -/
def EvalFault.IsTextual : EvalFault → Prop
  | unexpectedChar _ _ | unterminatedString _ | invalidNumber _ | unexpectedToken _ _ _
  | unexpectedEnd | invalidAssignmentTarget => True
  | undefinedIdentifier _ | readOfNullish _ _ | writeToNullish _ _ | notCallable _
  | readOnlyBinding _ | write _ | callDepthExceeded => False

/-- Whether a fault says that a text is no program. -/
def Fault.IsTextual : Fault → Prop
  | eval cause => cause.IsTextual
  | reactive _ | directive _ | markup _ | config _ => False

/-- Whether an outcome is a value, or a fault that texts are not to blame for. -/
def Legible (result : Except Fault Value) : Prop := ∀ fault, result = .error fault → ¬fault.IsTextual

/-! ## Computations -/

namespace TaskM

variable {σ α β : Type}

/-- Whether a computation makes only functions written in texts and has no fault that a text is to
blame for, if what comes after it goes on like that. -/
def Sound (computation : TaskM σ α) : Prop :=
  ∀ (ends : Except Fault Value → Prop) (next : Except Fault α → Task σ),
    (∀ a, (next (.ok a)).FromTexts ends) →
      (∀ fault : Fault, ¬fault.IsTextual → (next (.error fault)).FromTexts ends) →
        (computation next).FromTexts ends

theorem Sound.toTask {computation : TaskM σ Value} (sound : computation.Sound) :
    computation.toTask.FromTexts Legible :=
  sound _ .done (fun _ _ same => nomatch same) fun _ kind _ same => Except.error.inj same ▸ kind

/-- Such a computation may be the body of an effect. -/
theorem Sound.body {computation : TaskM σ Value} (sound : computation.Sound) :
    computation.toTask.FromTexts fun _ => True :=
  sound _ .done (fun _ => trivial) fun _ _ => trivial

namespace Sound

theorem bind {computation : TaskM σ α} {later : α → TaskM σ β} (first : computation.Sound)
    (second : ∀ a, (later a).Sound) : (computation >>= later).Sound := fun ends next goes fails =>
  first ends _ (fun a => second a ends next goes fails) fails

theorem pure (a : α) : (Pure.pure a : TaskM σ α).Sound := fun _ _ goes _ => goes a

theorem fail {fault : Fault} (kind : ¬fault.IsTextual) : (TaskM.fail fault : TaskM σ α).Sound :=
  fun _ _ _ fails => fails fault kind

theorem look (observe : Heap → α) : (TaskM.look observe : TaskM σ α).Sound :=
  fun _ _ goes _ _ _ => goes _

/-- What is seen of a heap that has only functions written in texts. -/
theorem bind_look {observe : Heap → α} {later : α → TaskM σ β}
    (second : ∀ heap : Heap, heap.FromTexts → (later (observe heap)).Sound) :
    (TaskM.look observe >>= later).Sound := fun ends next goes fails store read =>
  second store.heap read ends next goes fails

theorem has (target : ContainerId) (key : Key) : (TaskM.has target key : TaskM σ Bool).Sound :=
  fun _ _ goes _ _ => goes _

theorem watch (computation : Heap → Watch α) : (TaskM.watch computation : TaskM σ α).Sound :=
  fun _ _ goes _ _ _ => goes _

theorem make {request : Request} (made : request.FromTexts) :
    (TaskM.make request : TaskM σ Value).Sound := fun _ _ goes _ => ⟨made, fun _ => goes _⟩

theorem tryWrite (target : ContainerId) (key : Key) (value : Value) :
    (TaskM.tryWrite target key value : TaskM σ _).Sound := fun _ _ goes _ _ => goes _

theorem pop (target : ContainerId) : (TaskM.pop target : TaskM σ Value).Sound :=
  fun _ _ goes _ _ => goes _

end Sound

end TaskM

open TaskM (Sound)

variable {σ : Type}

/-! ## Properties and methods -/

namespace Value

theorem sound_getProperty (base : Value) (key : Key) : Sound (σ := σ) (base.getProperty key) := by
  cases base with
  | undefined => exact .fail id
  | null => exact .fail id
  | container id => exact .watch fun heap => heap.get id key
  | event id => exact .look fun heap => (heap.event id).property key
  | function id =>
      simp only [getProperty]
      split
      · exact .look _
      · exact .pure _
  | text content => exact .pure _
  | bool value => exact .pure _
  | number value => exact .pure _

theorem sound_writeContainer (id : ContainerId) (key : Key) (value : Value) :
    Sound (σ := σ) (writeContainer id key value) := by
  refine .bind (.tryWrite id key value) fun result => ?_
  cases result with
  | ok done => exact .pure _
  | error fault => exact .fail fun kind => kind

theorem sound_setProperty (base : Value) (key : Key) (value : Value) :
    Sound (σ := σ) (base.setProperty key value) := by
  cases base with
  | undefined => exact .fail id
  | null => exact .fail id
  | container id => exact sound_writeContainer id key value
  | _ => exact .pure _

theorem sound_appendAll (id : ContainerId) (values : List Value) (length : Nat) :
    Sound (σ := σ) (appendAll id length values) := by
  induction values generalizing length with
  | nil => exact .pure _
  | cons value rest ih => exact .bind (sound_writeContainer id _ value) fun _ => ih _

theorem sound_arrayMethod {id : ContainerId} {name : String} {args : List Value}
    {method : TaskM σ Value} (found : arrayMethod? id name args = some method) : method.Sound := by
  unfold arrayMethod? at found
  split at found
  · cases found
    exact .bind (.watch _) fun length => .bind (sound_appendAll id args length) fun _ => .pure _
  split at found
  · cases found
    exact .pop id
  split at found
  · cases found
    exact .bind (.watch _) fun _ => .pure _
  split at found
  · cases found
    have joined (separator : String) : Sound (σ := σ) (do
        return Value.text (← TaskM.watch fun heap => heap.join separator id)) :=
      .bind (.watch _) fun _ => .pure _
    split
    · exact .bind (.pure _) joined
    · exact .bind (.watch _) joined
  · contradiction

theorem sound_textMethod {text name : String} {args : List Value} {method : TaskM σ Value}
    (found : textMethod? text name args = some method) : method.Sound := by
  unfold textMethod? at found
  split at found
  · cases found
    exact .pure _
  split at found
  · cases found
    exact .pure _
  split at found
  · cases found
    exact .pure _
  split at found
  · cases found
    exact .bind (.watch _) fun _ => .pure _
  · contradiction

theorem sound_eventMethod {id : EventId} {name : String} {method : TaskM σ Value}
    (found : eventMethod? id name = some method) : method.Sound := by
  unfold eventMethod? at found
  split at found
  · cases found
    exact .bind (.make trivial) fun _ => .pure _
  split at found
  · cases found
    exact .bind (.make trivial) fun _ => .pure _
  · contradiction

theorem sound_callMethod (receiver : Value) (key : Key) (args : List Value) :
    Sound (σ := σ) (receiver.callMethod key args) := by
  cases key with
  | index position => exact .fail id
  | name name =>
      refine .bind (.look _) fun type => ?_
      split
      case h_1 method found =>
        cases receiver with
        | container id =>
            simp only [ownMethod?] at found
            split at found
            · exact sound_arrayMethod found
            · contradiction
        | text content => exact sound_textMethod found
        | event id => exact sound_eventMethod found
        | _ => contradiction
      case h_2 =>
        split
        · exact .bind (.watch _) fun _ => .pure _
        · exact .fail id

end Value

/-! ## Evaluation -/

namespace Expr

/-- The target of an assignment that has been read is a place. -/
theorem FromText.isAssignable_of_assign {op : AssignOp} {target value : Expr}
    (read : (assign op target value).FromText) : target.isAssignable = true := by
  obtain ⟨source, program, parsed, stands⟩ := read
  rcases (program_of_parse parsed).fits_of_occurs stands with fits | ⟨statements, same⟩
  · exact fits.1
  · contradiction

theorem FromText.isAssignable_of_update {step : Step} {before : Bool} {target : Expr}
    (read : (update step before target).FromText) : target.isAssignable = true := by
  obtain ⟨source, program, parsed, stands⟩ := read
  rcases (program_of_parse parsed).fits_of_occurs stands with fits | ⟨statements, same⟩
  · exact fits
  · contradiction

section Evaluation

variable {call : Caller σ} {scope : Scope} {bindings : Bindings}

theorem sound_lookup (scope : Scope) (bindings : Bindings) (name : String) :
    Sound (σ := σ) (lookup scope bindings name) := by
  unfold lookup
  split
  · exact .pure _
  · split
    · exact .fail id
    · refine .bind (.has _ _) fun present => .bind (.watch _) fun value => ?_
      split
      · exact .pure _
      · exact .fail id

theorem sound_readPlace (scope : Scope) (bindings : Bindings) (place : Place) :
    Sound (σ := σ) (readPlace scope bindings place) := by
  cases place with
  | binding name => exact sound_lookup scope bindings name
  | property base key => exact Value.sound_getProperty base key

theorem sound_writePlace (scope : Scope) (place : Place) (value : Value) :
    Sound (σ := σ) (writePlace scope place value) := by
  cases place with
  | property base key => exact Value.sound_setProperty base key value
  | binding name =>
      unfold writePlace
      dsimp only
      split
      · exact Value.sound_writeContainer _ _ _
      · exact .fail id

variable (calls : ∀ id args, (call id args).Sound)

include calls

theorem sound_callProperty (receiver : Value) (key : Key) (args : List Value) :
    Sound (callProperty call receiver key args) := by
  cases receiver with
  | undefined => exact .fail id
  | null => exact .fail id
  | container id =>
      refine .bind (.has id key) fun present => ?_
      split
      · refine .bind (.watch _) fun value => ?_
        split
        · exact calls _ args
        · exact .fail fun kind => kind
      · exact Value.sound_callMethod _ key args
  | _ => exact Value.sound_callMethod _ key args

theorem sound_callValue (callee : Value) (args : List Value) :
    Sound (callValue call callee args) := by
  unfold callValue
  split
  · exact calls _ args
  · exact .bind (.look _) fun _ => .fail id

set_option linter.unusedSectionVars false in
mutual

theorem sound_evalWith : (expr : Expr) → expr.FromText → Sound (evalWith call scope bindings expr)
  | .literal value, _ => .pure _
  | .ident name, _ => sound_lookup scope bindings name
  | .array items, read => .bind (sound_evalItems items fun _ => read.part) fun _ => .make trivial
  | .object entries, read => by
      refine .bind (sound_evalEntries entries fun entry member => ?_) fun _ => .make trivial
      exact read.part (List.mem_map_of_mem member)
  | .member holder property, read => by
      have inner : holder.FromText := read.part (by simp [parts])
      exact .bind (sound_evalWith holder inner) fun base => Value.sound_getProperty base _
  | .index holder position, read => by
      have inner : holder.FromText := read.part (by simp [parts])
      have place : position.FromText := read.part (by simp [parts])
      refine .bind (sound_evalWith holder inner) fun base => ?_
      exact .bind (sound_evalWith position place) fun _ => .bind (.watch _) fun key =>
        Value.sound_getProperty base key
  | .call callee args, read => by
      have values : ∀ arg ∈ args, arg.FromText := fun arg member =>
        read.part (List.mem_cons_of_mem _ member)
      have inner : callee.FromText := read.part List.mem_cons_self
      cases callee with
      | member holder property =>
          have base : holder.FromText := inner.part (by simp [parts])
          refine .bind (sound_evalItems args values) fun list => ?_
          exact .bind (sound_evalWith holder base) fun receiver =>
            sound_callProperty calls receiver _ list
      | index holder position =>
          have base : holder.FromText := inner.part (by simp [parts])
          have place : position.FromText := inner.part (by simp [parts])
          refine .bind (sound_evalItems args values) fun list => ?_
          refine .bind (sound_evalWith holder base) fun receiver => ?_
          exact .bind (sound_evalWith position place) fun _ => .bind (.watch _) fun key =>
            sound_callProperty calls receiver key list
      | _ =>
          refine .bind (sound_evalItems args values) fun list => ?_
          exact .bind (sound_evalWith _ inner) fun value => sound_callValue calls value list
  | .unary op operand, read => by
      have inner : operand.FromText := read.part (by simp [parts])
      exact .bind (sound_evalWith operand inner) fun _ => .watch _
  | .binary op left right, read => by
      have first : left.FromText := read.part (by simp [parts])
      have second : right.FromText := read.part (by simp [parts])
      exact .bind (sound_evalWith left first) fun _ => .bind (sound_evalWith right second)
        fun _ => .watch _
  | .logical op left right, read => by
      have first : left.FromText := read.part (by simp [parts])
      have second : right.FromText := read.part (by simp [parts])
      refine .bind (sound_evalWith left first) fun value => ?_
      split
      · exact .pure _
      · exact .pure _
      · exact sound_evalWith right second
      · exact sound_evalWith right second
  | .conditional test consequent alternate, read => by
      have asked : test.FromText := read.part (by simp [parts])
      have first : consequent.FromText := read.part (by simp [parts])
      have second : alternate.FromText := read.part (by simp [parts])
      refine .bind (sound_evalWith test asked) fun value => ?_
      split
      · exact sound_evalWith consequent first
      · exact sound_evalWith alternate second
  | .assign op target value, read => by
      have left : target.FromText := read.part (by simp [parts])
      have right : value.FromText := read.part (by simp [parts])
      refine .bind (sound_evalPlace target left read.isAssignable_of_assign) fun place => ?_
      cases op with
      | set =>
          refine .bind (sound_evalWith value right) fun result => ?_
          exact .bind (sound_writePlace scope place result) fun _ => .pure _
      | compound op =>
          refine .bind (sound_readPlace scope bindings place) fun current => ?_
          refine .bind (sound_evalWith value right) fun operand => .bind (.watch _) fun result => ?_
          exact .bind (sound_writePlace scope place result) fun _ => .pure _
  | .update step before target, read => by
      have inner : target.FromText := read.part (by simp [parts])
      refine .bind (sound_evalPlace target inner read.isAssignable_of_update) fun place => ?_
      refine .bind (sound_readPlace scope bindings place) fun current => .bind (.watch _) fun old => ?_
      exact .bind (sound_writePlace scope place _) fun _ => .pure _
  | .arrow params body, read => by
      have inner : body.FromText := read.part (by simp [parts])
      exact .make inner
  | .sequence statements, read =>
      .bind (sound_evalItems statements fun _ => read.part) fun _ => .pure _

theorem sound_evalItems : (items : List Expr) → (∀ item ∈ items, item.FromText) →
    Sound (evalItems call scope bindings items)
  | [], _ => .pure _
  | item :: rest, read => by
      rw [List.forall_mem_cons] at read
      exact .bind (sound_evalWith item read.1) fun _ => .bind (sound_evalItems rest read.2)
        fun _ => .pure _

theorem sound_evalEntries : (entries : List (String × Expr)) →
    (∀ entry ∈ entries, entry.2.FromText) → Sound (evalEntries call scope bindings entries)
  | [], _ => .pure _
  | (name, item) :: rest, read => by
      rw [List.forall_mem_cons] at read
      exact .bind (sound_evalWith item read.1) fun _ => .bind (sound_evalEntries rest read.2)
        fun _ => .pure _

theorem sound_evalPlace : (target : Expr) → target.FromText → target.isAssignable = true →
    Sound (evalPlace call scope bindings target)
  | .ident name, _, _ => by
      simp only [evalPlace]
      split
      · exact .fail id
      · exact .pure _
  | .member holder property, read, _ => by
      have inner : holder.FromText := read.part (by simp [parts])
      exact .bind (sound_evalWith holder inner) fun _ => .pure _
  | .index holder position, read, _ => by
      have inner : holder.FromText := read.part (by simp [parts])
      have place : position.FromText := read.part (by simp [parts])
      exact .bind (sound_evalWith holder inner) fun _ => .bind (sound_evalWith position place)
        fun _ => .bind (.watch _) fun _ => .pure _

end

end Evaluation

/-- Functions that have been written in texts are called without such a fault, however deep calls may
nest. -/
theorem sound_callFunction (depth : Nat) (id : FunctionId) (args : List Value) :
    Sound (σ := σ) (callFunction depth id args) := by
  induction depth generalizing id args with
  | zero => exact .fail fun kind => kind
  | succ depth ih =>
      refine .bind_look fun heap read => ?_
      split
      · exact .pure _
      next closure found =>
        exact sound_evalWith ih closure.body (read closure (Array.mem_of_getElem? found))

theorem sound_eval (scope : Scope) (bindings : Bindings) {expr : Expr} (read : expr.FromText) :
    Sound (σ := σ) (eval scope bindings expr) :=
  sound_evalWith (sound_callFunction callDepthLimit) expr read

/-! ## Programs -/

/-- Whether every assignment and every update in a program has a place to write to and something to
do there, and statements stand at its top, and no single one. -/
structure Executable (program : Expr) : Prop where
  /-- Assignments are to places, and combine old and new values by sums and products. -/
  assign : ∀ op target value, program.Occurs (.assign op target value) →
    target.isAssignable = true ∧ op ∈ assignOps
  /-- Updates are of places, and count up or down by one. -/
  update : ∀ step before target, program.Occurs (.update step before target) →
    target.isAssignable = true ∧ (step.amount = 1 ∨ step.amount = -1)
  /-- Statements are part of nothing. -/
  nested : ∀ outer statements, program.Occurs outer → .sequence statements ∉ outer.parts
  /-- A single statement is the program itself. -/
  several : ∀ statements, program = .sequence statements → statements.length ≠ 1

theorem Program.executable {program : Expr} (grammatical : program.Program) : program.Executable where
  assign op target value stands := by
    rcases grammatical.fits_of_occurs stands with fits | ⟨statements, same⟩
    · exact fits
    · contradiction
  update step before target stands := by
    refine ⟨?_, by cases step <;> simp [Step.amount]⟩
    rcases grammatical.fits_of_occurs stands with fits | ⟨statements, same⟩
    · exact fits
    · contradiction
  nested outer statements stands direct := (grammatical.regular_of_part stands direct).fits
  several statements same := by
    cases grammatical with
    | expression regular => exact (same ▸ regular.fits).elim
    | statements each several =>
        cases same
        exact several

/-- Whatever text has been read as a program, all its assignments and updates are sound, and no run of
it, over any data, bindings and functions from texts, has a fault that a text is to blame for. -/
theorem parsed_runs_sound {source : String} {program : Expr} (parsed : parse source = .ok program) :
    program.Executable ∧
      ∀ (world : World σ) (scope : Scope) (bindings : Bindings) (bound : Nat), world.FromTexts →
        Legible (World.interpret (World.runEffect bound)
            (eval scope bindings program).toTask world).1 ∧
          (World.interpret (World.runEffect bound)
            (eval scope bindings program).toTask world).2.FromTexts := by
  refine ⟨(program_of_parse parsed).executable, fun world scope bindings bound read => ?_⟩
  have written : program.FromText := ⟨source, program, parsed, .itself⟩
  exact read.interpret (World.fromTexts_runEffect bound) (sound_eval scope bindings written).toTask

/-- Data with a greeting and a name, a function `name => greeting = name` over it, and an effect that calls the
function. -/
def greeter : World Unit where
  store :=
    { heap :=
        { Heap.empty with
          containers := #[⟨⟨0⟩, .object ⟨[(.name "greeting", .null), (.name "name", .text "you")]⟩⟩]
          closures := #[⟨["name"], .assign .set (.ident "greeting") (.ident "name"),
            ⟨⟨0⟩, some ⟨0⟩⟩, .empty⟩] }
      trackers := #[.new default]
      runs := #[0] }
  surroundings := ()
  bodies := #[(eval ⟨⟨0⟩, some ⟨0⟩⟩ (Assoc.empty.insert "greet" (.function ⟨0⟩))
    (.call (.ident "greet") [.ident "greeting"])).toTask]

theorem parse_of_lexemes {source : String} {lexemes : List Lexeme} {program : Expr}
    (lexed : Lexeme.ofText source.toList = .ok lexemes) (read : ofTokens lexemes = .ok program) :
    parse source = .ok program := by
  rw [parse, lexed]
  exact read

theorem fromTexts_greeter : greeter.FromTexts where
  heap closure member := by
    have lexed : Lexeme.ofText "name => greeting = name".toList = .ok [
        ⟨.ident "name", 0⟩, ⟨.punct .arrow, 5⟩, ⟨.ident "greeting", 8⟩, ⟨.punct .assign, 17⟩,
        ⟨.ident "name", 19⟩] := rfl
    have parsed : parse "name => greeting = name" =
        .ok (.arrow ["name"] (.assign .set (.ident "greeting") (.ident "name"))) :=
      parse_of_lexemes lexed rfl
    obtain rfl := Array.mem_singleton.mp member
    exact ⟨_, _, parsed, .part .itself (by simp [parts])⟩
  bodies body member := by
    have lexed : Lexeme.ofText "greet(greeting)".toList = .ok [
        ⟨.ident "greet", 0⟩, ⟨.punct .leftParen, 5⟩, ⟨.ident "greeting", 6⟩,
        ⟨.punct .rightParen, 14⟩] := rfl
    have parsed : parse "greet(greeting)" = .ok (.call (.ident "greet") [.ident "greeting"]) :=
      parse_of_lexemes lexed rfl
    rw [Array.mem_singleton.mp member]
    exact (sound_eval _ _ ⟨_, _, parsed, .itself⟩).body

/-- A program that calls a function which was stored before, and then assigns. -/
def greeting : Expr := .sequence [
  .call (.ident "greet") [.ident "name"],
  .assign (.compound .add) (.ident "greeting") (.ident "name")]

theorem greeter_runs_sound :
    parse "greet(name); greeting += name" = .ok greeting ∧ greeter.FromTexts ∧
      greeting.Executable ∧
      Legible (World.interpret (World.runEffect 1)
        (eval ⟨⟨0⟩, some ⟨0⟩⟩ (Assoc.empty.insert "greet" (.function ⟨0⟩)) greeting).toTask
        greeter).1 := by
  have lexed : Lexeme.ofText "greet(name); greeting += name".toList = .ok [
      ⟨.ident "greet", 0⟩, ⟨.punct .leftParen, 5⟩, ⟨.ident "name", 6⟩, ⟨.punct .rightParen, 10⟩,
      ⟨.punct .semicolon, 11⟩, ⟨.ident "greeting", 13⟩, ⟨.punct .plusAssign, 22⟩,
      ⟨.ident "name", 25⟩] := rfl
  have parsed : parse "greet(name); greeting += name" = .ok greeting := parse_of_lexemes lexed rfl
  obtain ⟨executable, runs⟩ := parsed_runs_sound (σ := Unit) parsed
  exact ⟨parsed, fromTexts_greeter, executable, (runs greeter _ _ 1 fromTexts_greeter).1⟩

end Expr

end LiveMarkup
