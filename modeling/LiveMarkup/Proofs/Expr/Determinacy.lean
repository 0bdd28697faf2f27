import LiveMarkup.Proofs.Expr.Counterpart

/-!
# What determines a value

The value of an expression depends on the properties that its evaluation has read and on the
presence of those it has tested for.  Evaluated in another state of the same containers in which
these are the same, it yields the same value; only what the evaluation has made goes by other
identities.
-/

namespace LiveMarkup

/-- Keeps what is there in the first heap and takes what will be made there to what will be made in
the second. -/
def Renaming.shift (first second : Heap) : Renaming where
  base := first.containers.size
  container id := ⟨shiftIndex first.containers.size second.containers.size id.index⟩
  function id := ⟨shiftIndex first.closures.size second.closures.size id.index⟩
  event id := ⟨shiftIndex first.events.size second.events.size id.index⟩
  container_injective same := by
    rw [ContainerId.mk.injEq] at same
    exact congrArg ContainerId.mk (shiftIndex_injective same)
  function_injective same := by
    rw [FunctionId.mk.injEq] at same
    exact congrArg FunctionId.mk (shiftIndex_injective same)
  event_injective same := by
    rw [EventId.mk.injEq] at same
    exact congrArg EventId.mk (shiftIndex_injective same)

namespace Heap

/-- Whether what a value refers to is there. -/
def Has (heap : Heap) : Value → Prop
  | .container id => id.index < heap.containers.size
  | .function id => id.index < heap.closures.size
  | .event id => id.index < heap.events.size
  | .undefined | .null | .bool _ | .number _ | .text _ => True

/-- Whether what a scope and bindings refer to is there. -/
structure HasScope (heap : Heap) (scope : Scope) (bindings : Bindings) : Prop where
  /-- The data. -/
  data : ∀ id ∈ scope.data, id.index < heap.containers.size
  /-- The values of the bindings. -/
  bindings : ∀ entry ∈ bindings.entries, heap.Has entry.2

/-- Whether every reference in the heap refers to something. -/
structure Intact (heap : Heap) : Prop where
  /-- Containers hold what is there. -/
  contents : ∀ id, ∀ value ∈ (heap.contents id).values, heap.Has value
  /-- Functions have seen what is there. -/
  closures : ∀ closure ∈ heap.closures, heap.HasScope closure.scope closure.bindings

/-- Whether the second heap is another state of what is in the first.  Containers keep their kind and
their tracker, functions and events are the same; there may be more of each. -/
structure Restates (first second : Heap) : Prop where
  /-- No container is lost. -/
  containers_le : first.containers.size ≤ second.containers.size
  /-- Containers belong to the same tracker. -/
  owner : ∀ id : ContainerId, id.index < first.containers.size → second.owner id = first.owner id
  /-- Arrays are arrays and objects are objects. -/
  kind : ∀ id : ContainerId, id.index < first.containers.size →
    second.isArray id = first.isArray id
  /-- No function is lost. -/
  closures_le : first.closures.size ≤ second.closures.size
  /-- Functions are the same. -/
  closure : ∀ id : FunctionId, id.index < first.closures.size →
    second.closures[id.index]? = first.closures[id.index]?
  /-- No event is lost. -/
  events_le : first.events.size ≤ second.events.size
  /-- Events are the same. -/
  event : ∀ id : EventId, id.index < first.events.size → second.event id = first.event id

/-- Whether a property is the same in two heaps: its value, its presence, and the number of items if
it is the length of an array. -/
structure AgreeOn (first second : Heap) (access : Access) : Prop where
  /-- The value is the same. -/
  value : second.peek access.container access.key = first.peek access.container access.key
  /-- It is in both or in neither. -/
  present : second.contains access.container access.key = first.contains access.container access.key
  /-- As a length it is the same number. -/
  count : first.isArray access.container = true → access.key = .length →
    (second.contents access.container).count = (first.contents access.container).count

end Heap

namespace Renaming

variable {first second : Heap}

theorem shift_container {id : ContainerId} (known : id.index < first.containers.size) :
    (shift first second).container id = id :=
  congrArg ContainerId.mk (shiftIndex_of_lt known)

theorem shift_value {value : Value} (has : first.Has value) :
    (shift first second).value value = value := by
  cases value with
  | container id => exact congrArg Value.container (shift_container has)
  | function id => exact congrArg (fun index => Value.function ⟨index⟩) (shiftIndex_of_lt has)
  | event id => exact congrArg (fun index => Value.event ⟨index⟩) (shiftIndex_of_lt has)
  | _ => rfl

theorem shift_scope {scope : Scope} {bindings : Bindings} (has : first.HasScope scope bindings) :
    (shift first second).scope scope = scope := by
  obtain ⟨tracker, data⟩ := scope
  cases data with
  | none => rfl
  | some id =>
      exact congrArg (fun id => Scope.mk tracker (some id)) (shift_container (has.data id rfl))

theorem shift_bindings {scope : Scope} {bindings : Bindings}
    (has : first.HasScope scope bindings) : (shift first second).bindings bindings = bindings :=
  bindings_of_fixed _ fun entry member => shift_value (has.bindings entry member)

end Renaming

namespace Heap

variable {first second : Heap}

/-- What is read from an intact heap is there. -/
theorem Intact.peek (intact : first.Intact) (id : ContainerId) (key : Key) :
    first.Has (first.peek id key) := by
  rcases (first.contents id).lookup_cases key with member | undefined | length
  · exact intact.contents id _ member
  · rw [Heap.peek, undefined]
    trivial
  · rw [Heap.peek, length]
    trivial

/-- Another state of the containers of a heap mirrors it where the two agree, provided that nothing
in the heap refers to what is not there. -/
theorem Restates.mirrors_of_fixed (restates : first.Restates second) {reads probes : Access → Prop}
    (values : ∀ id key, (Renaming.shift first second).value (first.peek id key) = first.peek id key)
    (functions : ∀ closure ∈ first.closures,
      (Renaming.shift first second).closure closure = closure)
    (agree : ∀ access, reads access → access.container.index < first.containers.size →
      first.AgreeOn second access)
    (present : ∀ access, probes access → access.container.index < first.containers.size →
      second.contains access.container access.key = first.contains access.container access.key) :
    first.Mirrors (.shift first second) reads probes second := by
  let ρ := Renaming.shift first second
  have kept {id : ContainerId} (known : id.index < first.containers.size) : ρ.container id = id :=
    Renaming.shift_container known
  have beyond {before after index : Nat} (longer : before ≤ after) (missing : ¬index < before) :
      after ≤ shiftIndex before after index := by
    rw [shiftIndex, if_neg missing]
    omega
  have added {id : ContainerId} (missing : ¬id.index < first.containers.size) :
      first.container id = ⟨⟨0⟩, .emptyObject⟩ ∧
        second.container (ρ.container id) = ⟨⟨0⟩, .emptyObject⟩ :=
    ⟨container_of_size_le (Nat.le_of_not_lt missing),
      container_of_size_le (beyond restates.containers_le missing)⟩
  have whole (id : ContainerId) (missing : ¬id.index < first.containers.size) :
      second.contents (ρ.container id) = ρ.contents (first.contents id) := by
    rw [Heap.contents, Heap.contents, (added missing).1, (added missing).2]
    rfl
  refine
    { kind := fun id => ?_, owner := fun id => ?_, read := fun access read => ?_
      probed := fun access probe => ?_, made := fun id new => whole id (Nat.not_lt.mpr new)
      nextContainer := fun later => ?_, closure := fun id => ?_, nextFunction := fun later => ?_
      event := fun id => ?_, eventKnown := fun id => ?_ }
  · by_cases known : id.index < first.containers.size
    · exact (congrArg second.isArray (kept known)).trans (restates.kind id known)
    · rw [Heap.isArray, whole id known]
      exact Contents.isArray_rename ρ (first.contents id)
  · by_cases known : id.index < first.containers.size
    · exact (congrArg second.owner (kept known)).trans (restates.owner id known)
    · rw [Heap.owner, (added known).2, Heap.owner, (added known).1]
  · by_cases known : access.container.index < first.containers.size
    · have same := agree access read known
      rw [kept known]
      exact ⟨same.value.trans (values _ _).symm, same.count⟩
    · rw [whole access.container known]
      exact Contents.mirrored_rename ρ (first.contents access.container) access.key
  · by_cases known : access.container.index < first.containers.size
    · rw [kept known]
      exact present access probe known
    · rw [Heap.contains, whole access.container known]
      exact Contents.contains_rename ρ (first.contents access.container) access.key
  · exact congrArg ContainerId.mk (shiftIndex_add restates.containers_le later)
  · by_cases known : id.index < first.closures.size
    · have same : ρ.function id = id := congrArg FunctionId.mk (shiftIndex_of_lt known)
      have unchanged : ρ.closure first.closures[id.index] = first.closures[id.index] :=
        functions _ (Array.getElem_mem known)
      rw [same, restates.closure id known, Array.getElem?_eq_getElem known, Option.map_some,
        unchanged]
    · have missing : second.closures.size ≤ (ρ.function id).index :=
        beyond restates.closures_le known
      rw [Array.getElem?_eq_none (Nat.le_of_not_lt known), Array.getElem?_eq_none missing]
      rfl
  · exact congrArg FunctionId.mk (shiftIndex_add restates.closures_le later)
  · by_cases known : id.index < first.events.size
    · have same : ρ.event id = id := congrArg EventId.mk (shiftIndex_of_lt known)
      rw [same, restates.event id known]
    · have missing : second.events.size ≤ (ρ.event id).index := beyond restates.events_le known
      rw [Heap.event, Heap.event, Array.getElem?_eq_none (Nat.le_of_not_lt known),
        Array.getElem?_eq_none missing]
  · constructor
    · intro there
      refine Decidable.byContradiction fun missing => ?_
      exact Nat.lt_irrefl _ (Nat.lt_of_lt_of_le there (beyond restates.events_le missing))
    · intro known
      have same : (ρ.event id).index = id.index := shiftIndex_of_lt known
      rw [same]
      exact Nat.lt_of_lt_of_le known restates.events_le

/-- Another state of the containers of an intact heap mirrors it where the two agree. -/
theorem Restates.mirrors (restates : first.Restates second) (intact : first.Intact)
    {reads probes : Access → Prop}
    (agree : ∀ access, reads access → access.container.index < first.containers.size →
      first.AgreeOn second access)
    (present : ∀ access, probes access → access.container.index < first.containers.size →
      second.contains access.container access.key = first.contains access.container access.key) :
    first.Mirrors (.shift first second) reads probes second := by
  refine restates.mirrors_of_fixed (fun id key => Renaming.shift_value (intact.peek id key))
    (fun closure member => ?_) agree present
  have has := intact.closures closure member
  rw [Renaming.closure, Renaming.shift_scope has, Renaming.shift_bindings has]

/-- Whether the containers and functions that were made between the first two heaps have counterparts
in a third one. -/
structure MadeAlike (ρ : Renaming) (before after other : Heap) : Prop where
  /-- New containers hold counterparts. -/
  container : ∀ id : ContainerId, before.containers.size ≤ id.index →
    other.contents (ρ.container id) = ρ.contents (after.contents id)
  /-- New functions are counterparts. -/
  closure : ∀ id : FunctionId, before.closures.size ≤ id.index →
    other.closures[(ρ.function id).index]? = after.closures[id.index]?.map ρ.closure

end Heap

namespace Expr

variable {σ : Type}

/-- The value of an expression is determined by what its evaluation has read and tested for.  If the
evaluation changes nothing, and takes over no container of another tracker, then in every other
state that agrees on the reads it has made and on the presence of the properties it has tested for
without reading them, it ends in the same way: with the same fault or with the same value, up to the
identities of the containers and functions that it has made, which hold the same.  A running effect
is subscribed to exactly these reads. -/
theorem eval_determined (runner otherRunner : World.Runner σ) (world other : World σ) (scope : Scope)
    (bindings : Bindings) (expr : Expr) (result : Except Fault Value) (after : Store) (trace : Trace)
    (intact : world.store.heap.Intact) (has : world.store.heap.HasScope scope bindings)
    (observed : (eval (σ := σ) scope bindings expr).toTask.observe world.store =
      some (result, after, trace))
    (copied : trace.copied = []) (restates : world.store.heap.Restates other.store.heap)
    (agree : ∀ access ∈ trace.reads,
      access.container.index < world.store.heap.containers.size →
        world.store.heap.AgreeOn other.store.heap access)
    (present : ∀ access ∈ trace.probes, access ∉ trace.reads →
      access.container.index < world.store.heap.containers.size →
        other.store.heap.contains access.container access.key =
          world.store.heap.contains access.container access.key) :
    World.interpret runner (eval scope bindings expr).toTask world =
        (result, { world with store := after }) ∧
      (∀ (access : Access) (effect : EffectId),
        access.container.index < world.store.heap.containers.size →
          (effect ∈ after.dependents access ↔ effect ∈ world.store.dependents access ∨
            access ∈ trace.reads ∧
              world.store.HasTracker (world.store.heap.owner access.container) ∧
              (world.store.tracker (world.store.heap.owner access.container)).current =
                some effect)) ∧
      ∃ otherAfter : Store,
        World.interpret otherRunner (eval scope bindings expr).toTask other =
            (result.map (Renaming.shift world.store.heap other.store.heap).value,
              { other with store := otherAfter }) ∧
        world.store.heap.MadeAlike (.shift world.store.heap other.store.heap) after.heap
          otherAfter.heap := by
  let ρ := Renaming.shift world.store.heap other.store.heap
  have mirrors : world.store.heap.Mirrors ρ (· ∈ trace.reads) (· ∈ trace.probes) other.store.heap :=
    restates.mirrors intact agree fun access probe known => by
      by_cases read : access ∈ trace.reads
      · exact (agree access read known).present
      · exact present access probe read known
  have simulates : TaskM.Simulates ρ (· ∈ trace.reads) (· ∈ trace.probes) ρ.value
      (eval (σ := σ) scope bindings expr) (eval (ρ.scope scope) (ρ.bindings bindings) expr) :=
    eval_simulates scope bindings expr
  rw [Renaming.shift_scope has, Renaming.shift_bindings has] at simulates
  have within : trace.Within (· ∈ trace.reads) (· ∈ trace.probes) :=
    ⟨fun _ read => read, fun _ probe => probe, copied⟩
  obtain ⟨otherAfter, otherTrace, otherObserved, mirrored⟩ :=
    simulates .done .done (fun result here there => Task.Matches.done result) world.store other.store
      mirrors result after trace observed within
  exact ⟨Task.interpret_of_observe observed,
    fun _ _ known => Task.mem_dependents_observe observed known, otherAfter,
    Task.interpret_of_observe otherObserved,
    mirrored.made, fun id _ => mirrored.closure id⟩

/-- A world in which one tracker has containers with the given contents. -/
def holding (contents : List Contents) : World Unit where
  store :=
    { heap := ⟨(contents.map fun contents => ⟨⟨0⟩, contents⟩).toArray, #[], #[]⟩
      trackers := #[Tracker.new Config.default]
      runs := #[] }
  surroundings := ()
  bodies := #[]

theorem restates_holding (first second : Contents) (others : List Contents)
    (kind : second.isArray = first.isArray) :
    (holding [first]).store.heap.Restates (holding (second :: others)).store.heap where
  containers_le := by simp [holding]
  owner id known := by
    obtain ⟨index⟩ := id
    obtain rfl : index = 0 := by simpa [holding] using known
    rfl
  kind id known := by
    obtain ⟨index⟩ := id
    obtain rfl : index = 0 := by simpa [holding] using known
    exact kind
  closures_le := Nat.le_refl _
  closure _ known := absurd known (Nat.not_lt_zero _)
  events_le := Nat.le_refl _
  event _ known := absurd known (Nat.not_lt_zero _)

theorem intact_holding {contents : Contents}
    (inside : ∀ value ∈ contents.values, (holding [contents]).store.heap.Has value) :
    (holding [contents]).store.heap.Intact where
  contents id := by
    obtain ⟨index⟩ := id
    cases index with
    | zero => exact inside
    | succ index => exact fun _ member => nomatch member
  closures _ member := by simp [holding] at member

/-- A name is read, so it has the same value where the property is the same. -/
theorem array_of_name_determined : ∃ otherAfter : Store,
    World.interpret (World.runEffect 0)
        (eval ⟨⟨0⟩, some ⟨0⟩⟩ .empty (.array [.ident "name"])).toTask
        (holding [.object ⟨[(.name "name", .text "Ann")]⟩, .emptyObject]) =
      (.ok (.container ⟨2⟩),
        { holding [.object ⟨[(.name "name", .text "Ann")]⟩, .emptyObject] with
          store := otherAfter }) := by
  let contents : Contents := .object ⟨[(.name "name", .text "Ann"), (.name "age", .null)]⟩
  let other : Contents := .object ⟨[(.name "name", .text "Ann")]⟩
  have inside : ∀ value ∈ contents.values, (holding [contents]).store.heap.Has value := by
    intro value member
    rcases List.mem_cons.mp member with rfl | rest
    · trivial
    · rcases List.mem_singleton.mp rest with rfl
      trivial
  have agree : ∀ access : Access, access = ⟨⟨0⟩, .name "name"⟩ →
      (holding [contents]).store.heap.AgreeOn (holding [other, .emptyObject]).store.heap access := by
    rintro _ rfl
    exact ⟨by decide, by decide, fun isArray => nomatch isArray⟩
  have named {access : Access} (read : access ∈ [(⟨⟨0⟩, Key.ofText "name"⟩ : Access)]) :
      access = ⟨⟨0⟩, .name "name"⟩ := by
    rw [List.mem_singleton.mp read]
    decide
  have determined := eval_determined (World.runEffect 0) (World.runEffect 0) (holding [contents])
    (holding [other, .emptyObject]) ⟨⟨0⟩, some ⟨0⟩⟩ .empty (.array [.ident "name"]) _ _ _
    (intact_holding inside) ⟨by simp [holding], fun _ member => nomatch member⟩ rfl rfl
    (restates_holding contents other [.emptyObject] rfl)
    (fun access read _ => agree access (named read))
    (fun access probe _ _ => (agree access (named probe)).present)
  obtain ⟨_, _, otherAfter, ends, _⟩ := determined
  exact ⟨otherAfter, ends⟩

/-- The reads alone do not determine the value: calling a method looks for a property of that name, and
finding none is not a read. -/
theorem method_call_undetermined :
    ¬∀ (world other : World Unit) (scope : Scope) (bindings : Bindings) (expr : Expr)
      (result : Except Fault Value) (after : Store) (trace : Trace),
      world.store.heap.Intact → world.store.heap.HasScope scope bindings →
      (eval (σ := Unit) scope bindings expr).toTask.observe world.store =
        some (result, after, trace) →
      trace.copied = [] → world.store.heap.Restates other.store.heap →
      (∀ access ∈ trace.reads, access.container.index < world.store.heap.containers.size →
        world.store.heap.AgreeOn other.store.heap access) →
      ∃ otherAfter : Store,
        World.interpret (World.runEffect 0) (eval scope bindings expr).toTask other =
          (result.map (Renaming.shift world.store.heap other.store.heap).value,
            { other with store := otherAfter }) := by
  intro determined
  let shadowed : Contents := .object ⟨[(.name "toString", .null)]⟩
  have has : (holding [.emptyObject]).store.heap.HasScope ⟨⟨0⟩, none⟩ ⟨[("o", .container ⟨0⟩)]⟩ := by
    refine ⟨fun _ member => (nomatch member), fun entry member => ?_⟩
    rcases List.mem_singleton.mp member with rfl
    exact Nat.zero_lt_one
  obtain ⟨otherAfter, ends⟩ := determined (holding [.emptyObject]) (holding [shadowed]) ⟨⟨0⟩, none⟩
    ⟨[("o", .container ⟨0⟩)]⟩ (.call (.member (.ident "o") "toString") []) _ _ _
    (intact_holding fun _ member => (nomatch member)) has rfl rfl
    (restates_holding .emptyObject shadowed [] rfl) (fun _ read => (nomatch read))
  have refused := congrArg Prod.fst ends
  contradiction

end Expr

end LiveMarkup
