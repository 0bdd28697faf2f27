import LiveMarkup.Expr.Evaluation
import LiveMarkup.Proofs.Heap.Change
import LiveMarkup.Proofs.Heap.Keys

/-!
# Disciplines of evaluation

An expression gets at containers and functions through its scope, its bindings and the functions
that it calls.  A discipline says which values code may have at a stage of its run, and which
computations keep to that; it may also say under which keys code writes.  Once the primitive steps keep
to it, so does the evaluation of every expression, however deep its calls nest.
-/

namespace LiveMarkup

/-- Whether a scope and bindings name only trackers that are owned and values that are held. -/
structure Sees (owned : TrackerId → Prop) (held : Value → Prop) (scope : Scope)
    (bindings : Bindings) : Prop where
  /-- New containers belong to an owned tracker. -/
  tracker : owned scope.tracker
  /-- The data is held. -/
  data : ∀ data, scope.data = some data → held (.container data)
  /-- What is bound is held. -/
  bindings : ∀ entry ∈ bindings.entries, held entry.2

theorem Sees.imp {owned : TrackerId → Prop} {held more : Value → Prop} {scope : Scope}
    {bindings : Bindings} (sees : Sees owned held scope bindings) (all : ∀ value, held value → more value) :
    Sees owned more scope bindings :=
  ⟨sees.tracker, fun data same => all _ (sees.data data same),
    fun entry member => all _ (sees.bindings entry member)⟩

/-- Which values code may have, and which computations hand on nothing else.  What is known grows
from one stage of a run to the next. -/
structure Discipline (σ : Type) where
  /-- What is known at some point of a run. -/
  Stage : Type
  /-- Whether a stage may follow another one. -/
  Later : Stage → Stage → Prop
  /-- The trackers that new containers may belong to. -/
  Owned : TrackerId → Prop
  /-- The values that code may have. -/
  Held : Stage → Value → Prop
  /-- The containers that are known to be arrays. -/
  IsArray : Stage → ContainerId → Prop
  /-- The computations that keep to the discipline and yield something good. -/
  Keeps : {α : Type} → Stage → TaskM σ α → (Stage → α → Prop) → Prop
  held_of_plain : ∀ {stage value}, value.IsPlain → Held stage value
  held_later : ∀ {stage next value}, Later stage next → Held stage value → Held next value
  isArray_later : ∀ {stage next id}, Later stage next → IsArray stage id → IsArray next id
  keeps_pure : ∀ {α : Type} {stage} {good : Stage → α → Prop} {a : α}, good stage a →
    Keeps stage (pure a) good
  keeps_fail : ∀ {α : Type} {stage} {good : Stage → α → Prop} (fault : Fault),
    Keeps stage (TaskM.fail fault) good
  keeps_bind : ∀ {α β : Type} {stage} {good : Stage → α → Prop} {goodNext : Stage → β → Prop}
    {computation : TaskM σ α} {next : α → TaskM σ β}, Keeps stage computation good →
      (∀ more a, Later stage more → good more a → Keeps more (next a) goodNext) →
      Keeps stage (computation >>= next) goodNext
  keeps_imp : ∀ {α : Type} {stage} {good better : Stage → α → Prop} {computation : TaskM σ α},
    Keeps stage computation good → (∀ more a, good more a → better more a) →
      Keeps stage computation better
  keeps_look : ∀ {α : Type} {stage} {good : α → Prop} {observe : Heap → α},
    (∀ heap, good (observe heap)) → Keeps stage (TaskM.look observe) fun _ => good
  keeps_typeName : ∀ {stage} (receiver : Value),
    Keeps stage (TaskM.look fun heap => heap.typeName receiver) fun more type =>
      ∀ id, receiver = .container id → type = .array → IsArray more id
  keeps_has : ∀ {stage} (id : ContainerId) (key : Key),
    Keeps stage (TaskM.has id key) fun _ _ => True
  keeps_get : ∀ {stage id} (key : Key), Held stage (.container id) →
    Keeps stage (TaskM.watch fun heap => heap.get id key) Held
  keeps_items : ∀ {stage id}, Held stage (.container id) →
    Keeps stage (TaskM.watch fun heap => heap.items id) fun more items => ∀ item ∈ items, Held more item
  keeps_coercion : ∀ {α : Type} {stage} {good : α → Prop} {computation : Heap → Watch α}
    (values : List Value), (∀ value ∈ values, Held stage value) →
      (∀ (heap : Heap) (inside : ContainerId → Prop), heap.Encloses inside →
        (∀ value ∈ values, value.In inside) → Watch.Stays inside good (computation heap)) →
      Keeps stage (TaskM.watch computation) fun _ => good
  keeps_closure : ∀ {stage id}, Held stage (.function id) →
    Keeps stage (TaskM.look fun heap => heap.closures[id.index]?) fun more found =>
      ∀ code ∈ found, Sees Owned (Held more) code.scope code.bindings
  keeps_array : ∀ {stage tracker} {items : List Value}, Owned tracker →
    (∀ item ∈ items, Held stage item) → Keeps stage (TaskM.make (.array tracker items)) Held
  keeps_object : ∀ {stage tracker} {entries : List (Key × Value)}, Owned tracker →
    (∀ entry ∈ entries, entry.1.Obtained ∧ Held stage entry.2) →
      Keeps stage (TaskM.make (.object tracker entries)) Held
  keeps_arrow : ∀ {stage scope bindings} (params : List String) (body : Expr),
    Sees Owned (Held stage) scope bindings →
      Keeps stage (TaskM.make (.closure ⟨params, body, scope, bindings⟩)) Held
  keeps_amend : ∀ {stage} (id : EventId) (change : Event → Event),
    Keeps stage (TaskM.make (.amend id change)) Held
  keeps_tryWrite : ∀ {stage target value} {key : Key}, Held stage (.container target) →
    key.Obtained ∨ IsArray stage target ∧ (∃ position, key = .index position) → Held stage value →
      Keeps stage (TaskM.tryWrite target key value) fun _ _ => True
  keeps_pop : ∀ {stage target}, Held stage (.container target) →
    Keeps stage (TaskM.pop target) Held

namespace Discipline

variable {σ : Type} (d : Discipline σ) {stage more : d.Stage}

/-- Whether what an expression can see is held. -/
abbrev Sees (stage : d.Stage) (scope : Scope) (bindings : Bindings) : Prop :=
  LiveMarkup.Sees d.Owned (d.Held stage) scope bindings

theorem sees_later {scope : Scope} {bindings : Bindings} (later : d.Later stage more)
    (sees : d.Sees stage scope bindings) : d.Sees more scope bindings :=
  sees.imp fun _ held => d.held_later later held

/-- Whether code may write under a key of a container: the key was obtained, or the container is an
array and the key a position in it. -/
def Takes (stage : d.Stage) (id : ContainerId) (key : Key) : Prop :=
  key.Obtained ∨ d.IsArray stage id ∧ ∃ position, key = .index position

theorem all_later {α : Type} {part : α → Value} {list : List α} (later : d.Later stage more)
    (held : ∀ a ∈ list, d.Held stage (part a)) : ∀ a ∈ list, d.Held more (part a) :=
  fun a member => d.held_later later (held a member)

theorem keeps_plain {value : Value} (plain : value.IsPlain) :
    d.Keeps stage (pure value : TaskM σ Value) d.Held :=
  d.keeps_pure (d.held_of_plain plain)

/-- A coercion of one value. -/
theorem keeps_coerced {α : Type} {good : α → Prop} {computation : Heap → Watch α} {value : Value}
    (held : d.Held stage value)
    (stays : ∀ (heap : Heap) (inside : ContainerId → Prop), heap.Encloses inside →
      value.In inside → Watch.Stays inside good (computation heap)) :
    d.Keeps stage (TaskM.watch computation) fun _ => good :=
  d.keeps_coercion [value] (List.forall_mem_singleton.mpr held) fun heap inside encloses within =>
    stays heap inside encloses (List.forall_mem_singleton.mp within)

/-! ## Members -/

theorem keeps_getProperty {base : Value} (held : d.Held stage base) (key : Key) :
    d.Keeps stage (base.getProperty key) d.Held := by
  cases base with
  | undefined => exact d.keeps_fail _
  | null => exact d.keeps_fail _
  | container id => exact d.keeps_get key held
  | text content =>
      refine d.keeps_plain ?_
      simp only [Value.textProperty]
      repeat' split
      all_goals trivial
  | event event =>
      have read : d.Keeps stage (TaskM.look fun heap => (heap.event event).property key)
          fun _ => Value.IsPlain := d.keeps_look fun heap => by
        simp only [Event.property]
        repeat' split
        all_goals trivial
      exact d.keeps_imp read fun _ _ plain => d.held_of_plain plain
  | function function =>
      simp only [Value.getProperty]
      split
      · have read : d.Keeps stage (TaskM.look fun heap => Value.ofNat (heap.arity function))
            fun _ => Value.IsPlain := d.keeps_look fun _ => trivial
        exact d.keeps_imp read fun _ _ plain => d.held_of_plain plain
      · exact d.keeps_plain trivial
  | bool value => exact d.keeps_plain trivial
  | number value => exact d.keeps_plain trivial

theorem keeps_writeContainer {id : ContainerId} (there : d.Held stage (.container id)) {key : Key}
    (takes : d.Takes stage id key) {value : Value} (held : d.Held stage value) :
    d.Keeps stage (Value.writeContainer id key value) fun _ _ => True := by
  refine d.keeps_bind (d.keeps_tryWrite there takes held) fun more result _ _ => ?_
  cases result with
  | ok done => exact d.keeps_pure trivial
  | error fault => exact d.keeps_fail _

theorem keeps_setProperty {base : Value} (there : d.Held stage base) {key : Key}
    (obtained : key.Obtained) {value : Value} (held : d.Held stage value) :
    d.Keeps stage (base.setProperty key value) fun _ _ => True := by
  cases base with
  | undefined => exact d.keeps_fail _
  | null => exact d.keeps_fail _
  | container id => exact d.keeps_writeContainer there (.inl obtained) held
  | _ => exact d.keeps_pure trivial

/-! ## Methods -/

theorem held_argument {args : List Value} (held : ∀ arg ∈ args, d.Held stage arg) (position : Nat) :
    d.Held stage (Value.argument args position) := by
  rw [Value.argument]
  cases given : args[position]? with
  | none => exact d.held_of_plain trivial
  | some value => exact held value (List.mem_of_getElem? given)

theorem keeps_appendAll {id : ContainerId} (there : d.Held stage (.container id))
    (isArray : d.IsArray stage id) (values : List Value) (held : ∀ value ∈ values, d.Held stage value)
    (length : Nat) : d.Keeps stage (Value.appendAll id length values) fun _ _ => True := by
  induction values generalizing stage length with
  | nil => exact d.keeps_pure trivial
  | cons value rest ih =>
      rw [List.forall_mem_cons] at held
      have takes : d.Takes stage id (.index length) := .inr ⟨isArray, length, rfl⟩
      refine d.keeps_bind (d.keeps_writeContainer there takes held.1) fun more _ later _ => ?_
      exact ih (d.held_later later there) (d.isArray_later later isArray) (d.all_later later held.2) _

theorem keeps_arrayMethod {id : ContainerId} (there : d.Held stage (.container id))
    (isArray : d.IsArray stage id) {name : String} {args : List Value}
    (held : ∀ arg ∈ args, d.Held stage arg) {method : TaskM σ Value}
    (found : Value.arrayMethod? id name args = some method) : d.Keeps stage method d.Held := by
  unfold Value.arrayMethod? at found
  split at found
  · cases found
    have length : d.Keeps stage (TaskM.watch fun heap => heap.length id) fun _ _ => True :=
      d.keeps_coerced there fun _ _ _ inside => Heap.length_stays (Value.in_container.mp inside)
    refine d.keeps_bind length fun more length later _ => ?_
    exact d.keeps_bind
      (d.keeps_appendAll (d.held_later later there) (d.isArray_later later isArray) args
        (d.all_later later held) length)
      fun _ _ _ _ => d.keeps_plain trivial
  split at found
  · cases found
    exact d.keeps_pop there
  split at found
  · cases found
    exact d.keeps_bind (d.keeps_items there) fun _ _ _ _ => d.keeps_plain trivial
  split at found
  · cases found
    have joined {more : d.Stage} (later : d.Later stage more) (separator : String) :
        d.Keeps more (do return .text (← TaskM.watch fun heap => heap.join separator id)) d.Held := by
      have shown : d.Keeps more (TaskM.watch fun heap => heap.join separator id) fun _ _ => True :=
        d.keeps_coerced (d.held_later later there) fun heap inside encloses within =>
          Heap.joinWith_stays encloses
            (fun path item => Heap.displayWithin_stays encloses _ path item) separator []
            (Value.in_container.mp within)
      exact d.keeps_bind shown fun _ _ _ _ => d.keeps_plain trivial
    have argument := d.held_argument held 0
    split
    · have comma : d.Keeps stage (pure "," : TaskM σ String) fun _ _ => True :=
        d.keeps_pure trivial
      exact d.keeps_bind comma fun _ separator later _ => joined later separator
    · have shown : d.Keeps stage (TaskM.watch fun heap => heap.display (Value.argument args 0))
          fun _ _ => True :=
        d.keeps_coerced argument fun _ _ encloses within => Heap.display_stays encloses within
      exact d.keeps_bind shown fun _ separator later _ => joined later separator
  · contradiction

theorem keeps_textMethod {text name : String} {args : List Value}
    (held : ∀ arg ∈ args, d.Held stage arg) {method : TaskM σ Value}
    (found : Value.textMethod? text name args = some method) : d.Keeps stage method d.Held := by
  unfold Value.textMethod? at found
  split at found
  · cases found
    exact d.keeps_plain trivial
  split at found
  · cases found
    exact d.keeps_plain trivial
  split at found
  · cases found
    exact d.keeps_plain trivial
  split at found
  · cases found
    have shown : d.Keeps stage (TaskM.watch fun heap => heap.display (Value.argument args 0))
        fun _ _ => True :=
      d.keeps_coerced (d.held_argument held 0) fun _ _ encloses within =>
        Heap.display_stays encloses within
    exact d.keeps_bind shown fun _ _ _ _ => d.keeps_plain trivial
  · contradiction

theorem keeps_eventMethod {id : EventId} {name : String} {method : TaskM σ Value}
    (found : Value.eventMethod? id name = some method) : d.Keeps stage method d.Held := by
  unfold Value.eventMethod? at found
  split at found
  · cases found
    exact d.keeps_bind (d.keeps_amend id _) fun _ _ _ _ => d.keeps_plain trivial
  split at found
  · cases found
    exact d.keeps_bind (d.keeps_amend id _) fun _ _ _ _ => d.keeps_plain trivial
  · contradiction

theorem keeps_callMethod {receiver : Value} (there : d.Held stage receiver) (key : Key)
    {args : List Value} (held : ∀ arg ∈ args, d.Held stage arg) :
    d.Keeps stage (receiver.callMethod key args) d.Held := by
  cases key with
  | index position => exact d.keeps_fail _
  | name name =>
      refine d.keeps_bind (d.keeps_typeName receiver) fun more type later known => ?_
      have held := d.all_later later held
      have there := d.held_later later there
      split
      case h_1 method found =>
        cases receiver with
        | container id =>
            simp only [Value.ownMethod?] at found
            split at found
            next isArray =>
              exact d.keeps_arrayMethod there (known id rfl (of_decide_eq_true isArray)) held found
            next => contradiction
        | text content => exact d.keeps_textMethod held found
        | event id => exact d.keeps_eventMethod found
        | _ => contradiction
      case h_2 =>
        split
        · have shown : d.Keeps more (TaskM.watch fun heap => heap.display receiver) fun _ _ => True :=
            d.keeps_coerced there fun _ _ encloses within => Heap.display_stays encloses within
          exact d.keeps_bind shown fun _ _ _ _ => d.keeps_plain trivial
        · exact d.keeps_fail _

/-! ## Names and places -/

/-- Whether a place lies in something that is held, under a key that was obtained. -/
def HeldPlace (stage : d.Stage) : Place → Prop
  | .binding _ => True
  | .property base key => d.Held stage base ∧ key.Obtained

theorem heldPlace_later {place : Place} (later : d.Later stage more) (held : d.HeldPlace stage place) :
    d.HeldPlace more place := by
  cases place with
  | binding name => trivial
  | property base key => exact ⟨d.held_later later held.1, held.2⟩

section Evaluation

variable {d} {scope : Scope} {bindings : Bindings}

theorem keeps_lookup (sees : d.Sees stage scope bindings) (name : String) :
    d.Keeps stage (Expr.lookup scope bindings name) d.Held := by
  unfold Expr.lookup
  split
  next value found => exact d.keeps_pure (sees.bindings _ (Assoc.mem_of_lookup found))
  next missing =>
    split
    next none => exact d.keeps_fail _
    next data given =>
      refine d.keeps_bind (d.keeps_has data _) fun more present later _ => ?_
      refine d.keeps_bind (d.keeps_get _ ((d.sees_later later sees).data data given))
        fun most value _ held => ?_
      split
      · exact d.keeps_pure held
      · exact d.keeps_fail _

theorem keeps_readPlace (sees : d.Sees stage scope bindings) {place : Place}
    (held : d.HeldPlace stage place) :
    d.Keeps stage (Expr.readPlace scope bindings place) d.Held := by
  cases place with
  | binding name => exact keeps_lookup sees name
  | property base key => exact d.keeps_getProperty held.1 key

theorem keeps_writePlace (sees : d.Sees stage scope bindings) {place : Place}
    (there : d.HeldPlace stage place) {value : Value} (held : d.Held stage value) :
    d.Keeps stage (Expr.writePlace scope place value) fun _ _ => True := by
  cases place with
  | property base key => exact d.keeps_setProperty there.1 there.2 held
  | binding name =>
      unfold Expr.writePlace
      dsimp only
      split
      next data given => exact d.keeps_writeContainer (sees.data data given) (.inl (.text name)) held
      next none => exact d.keeps_fail _

/-! ## Calls -/

/-- Whether calls of what is held with what is held yield what is held. -/
def KeepsCalls (d : Discipline σ) (call : Expr.Caller σ) : Prop :=
  ∀ (stage : d.Stage) (id : FunctionId) (args : List Value), d.Held stage (.function id) →
    (∀ arg ∈ args, d.Held stage arg) → d.Keeps stage (call id args) d.Held

variable {call : Expr.Caller σ} (calls : d.KeepsCalls call)

include calls

theorem keeps_callProperty {receiver : Value} (there : d.Held stage receiver) (key : Key)
    {args : List Value} (held : ∀ arg ∈ args, d.Held stage arg) :
    d.Keeps stage (Expr.callProperty call receiver key args) d.Held := by
  cases receiver with
  | undefined => exact d.keeps_fail _
  | null => exact d.keeps_fail _
  | container id =>
      refine d.keeps_bind (d.keeps_has id key) fun more present later _ => ?_
      have there := d.held_later later there
      have held := d.all_later later held
      split
      · refine d.keeps_bind (d.keeps_get key there) fun most value enough heldValue => ?_
        split
        · exact calls most _ args heldValue (d.all_later enough held)
        · exact d.keeps_fail _
      · exact d.keeps_callMethod there key held
  | _ => exact d.keeps_callMethod there key held

theorem keeps_callValue {callee : Value} (there : d.Held stage callee) {args : List Value}
    (held : ∀ arg ∈ args, d.Held stage arg) :
    d.Keeps stage (Expr.callValue call callee args) d.Held := by
  unfold Expr.callValue
  split
  · exact calls stage _ args there held
  · have type : d.Keeps stage (TaskM.look fun heap => heap.typeName callee) fun _ _ => True :=
      d.keeps_look fun _ => trivial
    exact d.keeps_bind type fun _ _ _ _ => d.keeps_fail _

/-! ## Evaluation -/

omit calls in
theorem keeps_keyOf {place : Value} (held : d.Held stage place) :
    d.Keeps stage (TaskM.watch fun heap => heap.keyOf place) fun _ => Key.Obtained :=
  d.keeps_coerced held fun _ _ encloses within => Heap.keyOf_obtained encloses within

omit calls in
theorem keeps_binary (op : BinaryOp) {left right : Value} (heldLeft : d.Held stage left)
    (heldRight : d.Held stage right) :
    d.Keeps stage (TaskM.watch fun heap => heap.binary op left right) d.Held := by
  have computed : d.Keeps stage (TaskM.watch fun heap => heap.binary op left right)
      fun _ => Value.IsPlain := by
    refine d.keeps_coercion [left, right] ?_ fun heap inside encloses within => ?_
    · exact List.forall_mem_cons.mpr ⟨heldLeft, List.forall_mem_singleton.mpr heldRight⟩
    · rw [List.forall_mem_cons, List.forall_mem_singleton] at within
      exact Heap.binary_stays encloses op within.1 within.2
  exact d.keeps_imp computed fun _ _ plain => d.held_of_plain plain

omit calls in
theorem keeps_unary (op : UnaryOp) {value : Value} (held : d.Held stage value) :
    d.Keeps stage (TaskM.watch fun heap => heap.unary op value) d.Held := by
  have computed : d.Keeps stage (TaskM.watch fun heap => heap.unary op value)
      fun _ => Value.IsPlain :=
    d.keeps_coerced held fun _ _ encloses within => Heap.unary_stays encloses op within
  exact d.keeps_imp computed fun _ _ plain => d.held_of_plain plain

set_option linter.unusedSectionVars false in
mutual

theorem keeps_evalWith : (expr : Expr) → {stage : d.Stage} → d.Sees stage scope bindings →
    d.Keeps stage (Expr.evalWith call scope bindings expr) d.Held
  | .literal value, _, _ => d.keeps_plain (by cases value <;> trivial)
  | .ident name, _, sees => keeps_lookup sees name
  | .array items, _, sees => by
      refine d.keeps_bind (keeps_evalItems items sees) fun more values later held => ?_
      exact d.keeps_array sees.tracker held
  | .object entries, _, sees => by
      refine d.keeps_bind (keeps_evalEntries entries sees) fun more properties later held => ?_
      exact d.keeps_object sees.tracker held
  | .member holder property, _, sees =>
      d.keeps_bind (keeps_evalWith holder sees) fun _ _ _ held =>
        d.keeps_getProperty held (Key.ofText property)
  | .index holder position, _, sees => by
      refine d.keeps_bind (keeps_evalWith holder sees) fun more base later held => ?_
      refine d.keeps_bind (keeps_evalWith position (d.sees_later later sees))
        fun most place enough there => ?_
      refine d.keeps_bind (keeps_keyOf there) fun last key enoughKey _ => ?_
      exact d.keeps_getProperty (d.held_later enoughKey (d.held_later enough held)) key
  | .call callee args, _, sees => by
      cases callee with
      | member holder property =>
          refine d.keeps_bind (keeps_evalItems args sees) fun more values later held => ?_
          refine d.keeps_bind (keeps_evalWith holder (d.sees_later later sees))
            fun most receiver enough there => ?_
          exact keeps_callProperty calls there _ (d.all_later enough held)
      | index holder position =>
          refine d.keeps_bind (keeps_evalItems args sees) fun more values later held => ?_
          have sees := d.sees_later later sees
          refine d.keeps_bind (keeps_evalWith holder sees) fun most receiver enough there => ?_
          refine d.keeps_bind (keeps_evalWith position (d.sees_later enough sees))
            fun last place enoughPlace heldPlace => ?_
          refine d.keeps_bind (keeps_keyOf heldPlace) fun final key enoughKey _ => ?_
          exact keeps_callProperty calls (d.held_later enoughKey (d.held_later enoughPlace there)) key
            (d.all_later enoughKey (d.all_later enoughPlace (d.all_later enough held)))
      | _ =>
          refine d.keeps_bind (keeps_evalItems args sees) fun more values later held => ?_
          refine d.keeps_bind (keeps_evalWith _ (d.sees_later later sees))
            fun most value enough there => ?_
          exact keeps_callValue calls there (d.all_later enough held)
  | .unary op operand, _, sees =>
      d.keeps_bind (keeps_evalWith operand sees) fun _ _ _ held => keeps_unary op held
  | .binary op left right, _, sees => by
      refine d.keeps_bind (keeps_evalWith left sees) fun more first later held => ?_
      refine d.keeps_bind (keeps_evalWith right (d.sees_later later sees))
        fun most second enough heldSecond => ?_
      exact keeps_binary op (d.held_later enough held) heldSecond
  | .logical op left right, _, sees => by
      refine d.keeps_bind (keeps_evalWith left sees) fun more first later held => ?_
      have sees := d.sees_later later sees
      cases op with
      | and =>
          cases first.isTruthy with
          | false => exact d.keeps_pure held
          | true => exact keeps_evalWith right sees
      | or =>
          cases first.isTruthy with
          | false => exact keeps_evalWith right sees
          | true => exact d.keeps_pure held
  | .conditional test consequent alternate, _, sees => by
      refine d.keeps_bind (keeps_evalWith test sees) fun more value later _ => ?_
      split
      · exact keeps_evalWith consequent (d.sees_later later sees)
      · exact keeps_evalWith alternate (d.sees_later later sees)
  | .assign op target value, _, sees => by
      refine d.keeps_bind (keeps_evalPlace target sees) fun more place later there => ?_
      have sees := d.sees_later later sees
      cases op with
      | set =>
          refine d.keeps_bind (keeps_evalWith value sees) fun most result enough held => ?_
          refine d.keeps_bind (keeps_writePlace (d.sees_later enough sees)
            (d.heldPlace_later enough there) held) fun last _ enoughLast _ => ?_
          exact d.keeps_pure (d.held_later enoughLast held)
      | compound op =>
          refine d.keeps_bind (keeps_readPlace sees there) fun most current enough held => ?_
          have sees := d.sees_later enough sees
          have there := d.heldPlace_later enough there
          refine d.keeps_bind (keeps_evalWith value sees)
            fun last operand enoughLast heldOperand => ?_
          refine d.keeps_bind (keeps_binary op (d.held_later enoughLast held) heldOperand)
            fun final result enoughFinal heldResult => ?_
          refine d.keeps_bind (keeps_writePlace (d.sees_later enoughFinal (d.sees_later enoughLast sees))
            (d.heldPlace_later enoughFinal (d.heldPlace_later enoughLast there)) heldResult)
            fun _ _ written _ => ?_
          exact d.keeps_pure (d.held_later written heldResult)
  | .update step before target, _, sees => by
      refine d.keeps_bind (keeps_evalPlace target sees) fun more place later there => ?_
      have sees := d.sees_later later sees
      refine d.keeps_bind (keeps_readPlace sees there) fun most current enough held => ?_
      have number : d.Keeps most (TaskM.watch fun heap => heap.toNumber current) fun _ _ => True :=
        d.keeps_coerced held fun _ _ encloses within => Heap.toNumber_stays encloses within
      refine d.keeps_bind number fun last old enoughLast _ => ?_
      refine d.keeps_bind (keeps_writePlace (d.sees_later enoughLast (d.sees_later enough sees))
        (d.heldPlace_later enoughLast (d.heldPlace_later enough there)) (d.held_of_plain trivial))
        fun _ _ _ _ => ?_
      exact d.keeps_plain trivial
  | .arrow params body, _, sees => d.keeps_arrow params body sees
  | .sequence statements, _, sees => by
      refine d.keeps_bind (keeps_evalItems statements sees) fun more values later held => ?_
      refine d.keeps_pure ?_
      cases last : values.getLast? with
      | none => exact d.held_of_plain trivial
      | some value => exact held value (List.mem_of_getLast? last)

theorem keeps_evalItems : (items : List Expr) → {stage : d.Stage} → d.Sees stage scope bindings →
    d.Keeps stage (Expr.evalItems call scope bindings items)
      fun more values => ∀ value ∈ values, d.Held more value
  | [], _, _ => d.keeps_pure fun _ member => nomatch member
  | item :: rest, _, sees => by
      refine d.keeps_bind (keeps_evalWith item sees) fun more value later held => ?_
      refine d.keeps_bind (keeps_evalItems rest (d.sees_later later sees))
        fun most values enough all => ?_
      exact d.keeps_pure (List.forall_mem_cons.mpr ⟨d.held_later enough held, all⟩)

theorem keeps_evalEntries : (entries : List (String × Expr)) → {stage : d.Stage} →
    d.Sees stage scope bindings →
    d.Keeps stage (Expr.evalEntries call scope bindings entries)
      fun more (properties : List (Key × Value)) =>
        ∀ entry ∈ properties, entry.1.Obtained ∧ d.Held more entry.2
  | [], _, _ => d.keeps_pure fun _ member => nomatch member
  | (name, item) :: rest, _, sees => by
      refine d.keeps_bind (keeps_evalWith item sees) fun more value later held => ?_
      refine d.keeps_bind (keeps_evalEntries rest (d.sees_later later sees))
        fun most values enough all => ?_
      exact d.keeps_pure (List.forall_mem_cons.mpr ⟨⟨.text name, d.held_later enough held⟩, all⟩)

theorem keeps_evalPlace : (target : Expr) → {stage : d.Stage} → d.Sees stage scope bindings →
    d.Keeps stage (Expr.evalPlace call scope bindings target) d.HeldPlace
  | .ident name, _, _ => by
      simp only [Expr.evalPlace]
      split
      · exact d.keeps_fail _
      · exact d.keeps_pure trivial
  | .member holder property, _, sees =>
      d.keeps_bind (keeps_evalWith holder sees) fun _ _ _ held => d.keeps_pure ⟨held, .text property⟩
  | .index holder position, _, sees => by
      refine d.keeps_bind (keeps_evalWith holder sees) fun more base later held => ?_
      refine d.keeps_bind (keeps_evalWith position (d.sees_later later sees))
        fun most place enough there => ?_
      refine d.keeps_bind (keeps_keyOf there) fun last key enoughKey obtained => ?_
      exact d.keeps_pure ⟨d.held_later enoughKey (d.held_later enough held), obtained⟩
  | .literal _, _, _ | .array _, _, _ | .object _, _, _ | .call _ _, _, _ | .unary _ _, _, _
  | .binary _ _ _, _, _ | .logical _ _ _, _, _ | .conditional _ _ _, _, _ | .assign _ _ _, _, _
  | .update _ _ _, _, _ | .arrow _ _, _, _ | .sequence _, _, _ => d.keeps_fail _

end

end Evaluation

variable {d}

theorem held_bindArguments {bindings : Bindings} (bound : ∀ entry ∈ bindings.entries, d.Held stage entry.2)
    (params : List String) {args : List Value} (held : ∀ arg ∈ args, d.Held stage arg) :
    ∀ entry ∈ (Expr.bindArguments bindings params args).entries, d.Held stage entry.2 := by
  have insert {bindings : Bindings} (bound : ∀ entry ∈ bindings.entries, d.Held stage entry.2)
      (name : String) {value : Value} (held : d.Held stage value) :
      ∀ entry ∈ (bindings.insert name value).entries, d.Held stage entry.2 := by
    intro entry member
    rcases Assoc.mem_put member with old | rfl
    · exact bound entry old
    · exact held
  induction params generalizing bindings args with
  | nil => exact bound
  | cons name names ih =>
      cases args with
      | nil =>
          have missing : d.Held stage .undefined := d.held_of_plain trivial
          exact ih (insert bound name missing) held
      | cons value values =>
          rw [List.forall_mem_cons] at held
          exact ih (insert bound name held.1) held.2

/-- A function gets at what it has seen and at its arguments, however deep calls may nest. -/
theorem keeps_callFunction (depth : Nat) : d.KeepsCalls (Expr.callFunction depth) := by
  induction depth with
  | zero => exact fun stage id args _ _ => d.keeps_fail _
  | succ depth ih =>
      intro stage id args there held
      refine d.keeps_bind (d.keeps_closure there) fun more found later seen => ?_
      cases found with
      | none => exact d.keeps_plain trivial
      | some code =>
          have sees := seen code rfl
          exact keeps_evalWith ih code.body ⟨sees.tracker, sees.data,
            held_bindArguments sees.bindings code.params (d.all_later later held)⟩

/-- Whatever an expression does, it keeps to the discipline if what it sees is held. -/
theorem keeps_eval {scope : Scope} {bindings : Bindings} (sees : d.Sees stage scope bindings)
    (expr : Expr) : d.Keeps stage (Expr.eval scope bindings expr) d.Held :=
  keeps_evalWith (keeps_callFunction Expr.callDepthLimit) expr sees

end Discipline

end LiveMarkup
