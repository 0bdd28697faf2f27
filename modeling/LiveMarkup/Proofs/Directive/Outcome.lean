import LiveMarkup.Proofs.Directive.Duty
import LiveMarkup.Proofs.Expr.Determinacy
import LiveMarkup.Proofs.Reactive.Grounded
import LiveMarkup.Proofs.Reactive.Supply

/-!
# What is seen of an expression

What one sees of a plain expression, and what looking at it makes, is a function of the heap: no
subscription and no other part of the state has a say in it.  In a heap that is the counterpart of
another one, the counterpart is seen.
-/

namespace LiveMarkup

/-! ## Heaps that are the same -/

/-- Takes everything to itself. -/
def Renaming.same : Renaming where
  base := 0
  container id := id
  function id := id
  event id := id
  container_injective equal := equal
  function_injective equal := equal
  event_injective equal := equal

namespace Renaming

theorem same_value : Renaming.same.value = id :=
  funext fun value => by cases value <;> rfl

theorem same_mapValues {κ : Type} (map : Assoc κ Value) : map.mapValues Renaming.same.value = map := by
  simp [Assoc.mapValues, same_value]

theorem same_contents (contents : Contents) : Renaming.same.contents contents = contents := by
  cases contents with
  | object properties => exact congrArg Contents.object (same_mapValues properties)
  | array items named =>
      rw [Renaming.contents, same_mapValues, same_value, Array.map_id]

theorem same_bindings (bindings : Bindings) : Renaming.same.bindings bindings = bindings :=
  same_mapValues bindings

theorem same_scope (scope : Scope) : Renaming.same.scope scope = scope := by
  obtain ⟨tracker, data⟩ := scope
  cases data <;> rfl

theorem same_closure : Renaming.same.closure = id :=
  funext fun closure => by simp [Renaming.closure, same_scope, same_bindings]

end Renaming

namespace Heap

variable {reads probes : Access → Prop} {first second : Heap}

theorem Mirrors.refl (heap : Heap) : heap.Mirrors .same reads probes heap where
  kind _ := rfl
  owner _ := rfl
  read access _ := ⟨(congrFun Renaming.same_value _).symm, fun _ _ => rfl⟩
  probed _ _ := rfl
  made _ _ := (Renaming.same_contents _).symm
  nextContainer _ := rfl
  closure id := by rw [Renaming.same_closure, Option.map_id]; rfl
  nextFunction _ := rfl
  event _ := rfl
  eventKnown _ := .rfl

/-- A heap in which everything is its own counterpart is the same heap. -/
theorem Mirrors.eq (mirrors : first.Mirrors .same reads probes second) : second = first := by
  have size : second.containers.size = first.containers.size :=
    (congrArg ContainerId.index (mirrors.nextContainer 0)).symm
  have container (id : ContainerId) : second.container id = first.container id := by
    have contents := mirrors.made id (Nat.zero_le _)
    rw [Renaming.same_contents] at contents
    have owner : (second.container id).owner = (first.container id).owner := mirrors.owner id
    exact (Container.mk.injEq _ _ _ _).mpr ⟨owner, contents⟩
  have containers : second.containers = first.containers := by
    refine Array.ext size fun index known alsoKnown => ?_
    have same := container ⟨index⟩
    simpa [Heap.container, known, alsoKnown] using same
  have closures : second.closures = first.closures := by
    refine Array.ext_getElem? fun index => ?_
    have same := mirrors.closure ⟨index⟩
    rw [Renaming.same_closure, Option.map_id] at same
    exact same
  have events : second.events = first.events := by
    refine Array.ext_getElem? fun index => ?_
    have same := mirrors.event ⟨index⟩
    have known : index < second.events.size ↔ index < first.events.size := mirrors.eventKnown ⟨index⟩
    by_cases there : index < first.events.size
    · have here := known.mpr there
      simpa [Heap.event, Renaming.same, there, here] using same
    · have here := fun inside => there (known.mp inside)
      rw [Array.getElem?_eq_none (by omega), Array.getElem?_eq_none (by omega)]
  cases first
  cases second
  simp_all

end Heap

/-! ## Outcomes -/

/-- A state with nothing but a heap. -/
def Store.bare (heap : Heap) : Store := ⟨heap, #[], #[]⟩

/-- The value of an expression that changes nothing, and the heap after its evaluation. -/
def Expr.outcome (scope : Scope) (bindings : Bindings) (expr : Expr) (heap : Heap) :
    Except Fault Value × Heap :=
  let observed := (Expr.eval (σ := Page) scope bindings expr).toTask.observe (.bare heap)
  (observed.map fun ended => (ended.1, ended.2.1.heap)).getD (.ok .undefined, heap)

namespace Glance

/-- What is seen of a value. -/
def sight (heap : Heap) : Glance → Value → Sight
  | .text, value => .text ((heap.shownText value).run #[]).1
  | .truth, value => .truth value.isTruthy
  | .items, value => .items ((heap.array? value).map fun list => ((heap.items list).run #[]).1)

/-- What is seen of an expression, and the heap after that. -/
def outcome (glance : Glance) (scope : Scope) (bindings : Bindings) (expr : Expr) (heap : Heap) :
    Except Fault Sight × Heap :=
  let (result, after) := expr.outcome scope bindings heap
  (result.map (glance.sight after), after)

/-- What is seen at a glance is what one looks for. -/
theorem glance_of_outcome {glance : Glance} {scope : Scope} {bindings : Bindings} {expr : Expr}
    {heap : Heap} {sight : Sight} (seen : (glance.outcome scope bindings expr heap).1 = .ok sight) :
    sight.glance = glance := by
  simp only [outcome] at seen
  cases value : (expr.outcome scope bindings heap).1 with
  | error fault =>
      rw [value] at seen
      contradiction
  | ok value =>
      rw [value] at seen
      rw [← Except.ok.inj seen]
      cases glance <;> rfl

theorem look_yields (glance : Glance) (value : Value) (store : Store) :
    ∃ after trace, (glance.look (σ := Page) value).Yields store
      (.ok (glance.sight store.heap value)) after trace ∧ after.heap = store.heap := by
  cases glance with
  | text =>
      exact ⟨_, _, (TaskM.Yields.watch _ store).bind (.pure _ _), Store.heap_track _ _⟩
  | truth => exact ⟨_, _, .pure _ _, rfl⟩
  | items =>
      have read : ∃ after trace, (lookAtItems (σ := Page) (store.heap.array? value)).Yields store
          (.ok (sight store.heap .items value)) after trace ∧ after.heap = store.heap := by
        rw [sight]
        cases store.heap.array? value with
        | none => exact ⟨_, _, .pure _ _, rfl⟩
        | some list =>
            exact ⟨_, _, (TaskM.Yields.watch _ store).bind (.pure _ _), Store.heap_track _ _⟩
      obtain ⟨after, trace, yields, heap⟩ := read
      exact ⟨after, _, (TaskM.Yields.look _ store).bind yields, heap⟩

variable {reach : Reach} {data : ContainerId} {bindings : Bindings} {expr : Expr}

/-- In every state with a heap, a plain expression has the outcome that it has on the heap alone. -/
theorem eval_outcome (held : reach.held data) (plain : expr.isPlain = true) {store : Store}
    (calm : reach.Calm store.heap)
    (bound : ∀ entry ∈ bindings.entries, reach.Holds store.heap entry.2) :
    ∃ after trace, (Expr.eval (σ := Page) ⟨reach.tracker, some data⟩ bindings expr).Yields store
      (expr.outcome ⟨reach.tracker, some data⟩ bindings store.heap).1 after trace ∧
        after.heap = (expr.outcome ⟨reach.tracker, some data⟩ bindings store.heap).2 := by
  obtain ⟨result, after, trace, concludes⟩ := Expr.eval_confined (σ := Page) held plain bound
    store (.refl _) calm
  obtain ⟨bare, bareAfter, bareTrace, concludesBare⟩ := Expr.eval_confined (σ := Page) held plain bound
    (.bare store.heap) (.refl _) calm
  have outcome : expr.outcome ⟨reach.tracker, some data⟩ bindings store.heap =
      (bare, bareAfter.heap) := by
    have observed := concludesBare.yields.observe_done id
    rw [Expr.outcome, TaskM.toTask]
    exact congrArg (fun observed : Option (Except Fault Value × Store × Trace) =>
      (observed.map fun ended => (ended.1, ended.2.1.heap)).getD (.ok .undefined, store.heap)) observed
  have simulates : TaskM.Simulates (σ := Page) .same (fun _ => True) (fun _ => True) _ _ _ :=
    Expr.eval_simulates ⟨reach.tracker, some data⟩ bindings expr
  rw [Renaming.same_scope, Renaming.same_bindings] at simulates
  have mirrors : (Store.bare store.heap).heap.Mirrors .same (fun _ => True) (fun _ => True) store.heap :=
    .refl _
  obtain ⟨same, mirrors⟩ := simulates.yields mirrors concludesBare.yields
    ⟨fun _ _ => trivial, fun _ _ => trivial, concludesBare.near.copied⟩ concludes.yields
  rw [Renaming.same_value] at same
  rw [outcome]
  have same : result = bare := by
    rw [same]
    cases bare <;> rfl
  exact ⟨after, trace, same ▸ concludes.yields, mirrors.eq⟩

/-- So it is with what is seen of it. -/
theorem read_outcome (glance : Glance) (held : reach.held data) (plain : expr.isPlain = true)
    (store : Store) (calm : reach.Calm store.heap)
    (bound : ∀ entry ∈ bindings.entries, reach.Holds store.heap entry.2) :
    ∃ after trace, (glance.read (σ := Page) ⟨reach.tracker, some data⟩ bindings expr).Concludes reach
      (some data) (Sight.Within glance reach) store
        (glance.outcome ⟨reach.tracker, some data⟩ bindings expr store.heap).1 after trace ∧
      after.heap = (glance.outcome ⟨reach.tracker, some data⟩ bindings expr store.heap).2 := by
  obtain ⟨between, first, yields, heap⟩ := eval_outcome held plain calm bound
  obtain ⟨result, after, trace, concludes⟩ := read_confined (σ := Page) glance held plain bound
    store (.refl _) calm
  have read : ∃ other otherTrace,
      (glance.read (σ := Page) ⟨reach.tracker, some data⟩ bindings expr).Yields store
        (glance.outcome ⟨reach.tracker, some data⟩ bindings expr store.heap).1 other otherTrace ∧
      other.heap = (glance.outcome ⟨reach.tracker, some data⟩ bindings expr store.heap).2 := by
    rw [outcome]
    generalize expr.outcome ⟨reach.tracker, some data⟩ bindings store.heap = outcome at yields heap
    obtain ⟨value, heapAfter⟩ := outcome
    obtain rfl : between.heap = heapAfter := heap
    cases value with
    | error fault => exact ⟨between, first, yields.bind_error, rfl⟩
    | ok value =>
        obtain ⟨other, second, looks, same⟩ := glance.look_yields value between
        exact ⟨other, _, yields.bind looks, same⟩
  obtain ⟨other, otherTrace, again, same⟩ := read
  obtain ⟨outcome, rfl, rfl⟩ := concludes.yields.unique again
  exact ⟨_, _, outcome.symm ▸ concludes, same⟩

/-- What has become of a heap in which something was looked at. -/
theorem outcome_supplies (glance : Glance) (held : reach.held data) (plain : expr.isPlain = true)
    {heap : Heap} (calm : reach.Calm heap)
    (bound : ∀ entry ∈ bindings.entries, reach.Holds heap entry.2) :
    let outcome := glance.outcome ⟨reach.tracker, some data⟩ bindings expr heap
    reach.Supplies heap outcome.2 [] ∧
      ∀ items, outcome.1 = .ok (.items (some items)) → ∀ item ∈ items, reach.Holds outcome.2 item := by
  intro outcome
  obtain ⟨after, trace, concludes, same⟩ := read_outcome glance held plain (.bare heap) calm bound
  have same : after.heap = outcome.2 := same
  refine ⟨⟨same ▸ concludes.calm, same ▸ concludes.yields.steady.heap, same ▸ concludes.closures,
    same ▸ concludes.events, fun _ member => absurd member List.not_mem_nil⟩, fun items seen => ?_⟩
  rw [← same]
  exact (concludes.good _ seen).items items rfl

/-- In the counterpart of a heap the counterpart is seen. -/
theorem outcome_mirrors (glance : Glance) (held : reach.held data) (plain : expr.isPlain = true)
    {ρ : Renaming} (fixed : ρ.container data = data) {heap other : Heap}
    (mirrors : heap.Mirrors ρ (fun _ => True) (fun _ => True) other) (calm : reach.Calm heap)
    (otherCalm : reach.Calm other) (bound : ∀ entry ∈ bindings.entries, reach.Holds heap entry.2)
    (otherBound : ∀ entry ∈ (ρ.bindings bindings).entries, reach.Holds other entry.2) :
    let outcome := glance.outcome ⟨reach.tracker, some data⟩ bindings expr heap
    let counterpart := glance.outcome ⟨reach.tracker, some data⟩ (ρ.bindings bindings) expr other
    counterpart.1 = outcome.1.map ρ.sight ∧
      outcome.2.Mirrors ρ (fun _ => True) (fun _ => True) counterpart.2 := by
  intro outcome counterpart
  obtain ⟨after, trace, concludes, same⟩ :=
    read_outcome glance held plain (.bare heap) calm bound
  obtain ⟨otherAfter, otherTrace, otherConcludes, otherSame⟩ :=
    read_outcome glance held plain (.bare other) otherCalm otherBound
  have simulates : TaskM.Simulates (σ := Page) ρ (fun _ => True) (fun _ => True) _ _ _ :=
    read_simulates glance ⟨reach.tracker, some data⟩ bindings expr
  rw [Renaming.scope, Option.map_some, fixed] at simulates
  have mirrors : (Store.bare heap).heap.Mirrors ρ (fun _ => True) (fun _ => True)
      (Store.bare other).heap := mirrors
  obtain ⟨result, mirrored⟩ := simulates.yields mirrors concludes.yields
    ⟨fun _ _ => trivial, fun _ _ => trivial, concludes.near.copied⟩ otherConcludes.yields
  rw [same, otherSame] at mirrored
  exact ⟨result, mirrored⟩

end Glance

/-! ## Heaps that have grown -/

/-- What belongs to a tracker, and what it will make. -/
def Heap.realm (heap : Heap) (tracker : TrackerId) : Reach :=
  ⟨tracker, fun id => id.index < heap.containers.size ∧ heap.owner id = tracker, heap.containers.size⟩

theorem Heap.Closed.calm_realm {heap : Heap} (closed : heap.Closed) (tracker : TrackerId) :
    (heap.realm tracker).Calm heap where
  encloses id inside value member other same := by
    rcases inside with ⟨known, owner⟩ | made
    · exact .inl (owner ▸ closed id known value member other same)
    · exact absurd made.2 (Nat.not_lt.mpr made.1)
  owner id inside := by
    rcases inside with held | made
    · exact held.2
    · exact absurd made.2 (Nat.not_lt.mpr made.1)
  base := Nat.le_refl _

theorem Heap.Belongs.holds {heap : Heap} {tracker : TrackerId} {value : Value}
    (belongs : heap.Belongs tracker value) : (heap.realm tracker).Holds heap value :=
  fun id same => .inl (belongs id same)

namespace Reach.Supplies

variable {floor heap other : Heap} {tracker : TrackerId} {known : TrackerId → Prop}

/-- Containers hold only what is there. -/
theorem known_of_peek (grounded : floor.Grounded known)
    (supplies : (floor.realm tracker).Supplies floor heap []) (id : ContainerId) (key : Key) :
    heap.Known (heap.peek id key) := by
  intro other same
  have member : .container other ∈ (heap.contents id).values := Contents.mem_values_of_lookup same
  by_cases old : id.index < floor.containers.size
  · rw [Heap.contents, supplies.grows.container id old] at member
    exact Nat.lt_of_lt_of_le (Heap.known_of_closed grounded.closed member _ rfl)
      supplies.grows.size_le
  · by_cases there : id.index < heap.containers.size
    · have inside := supplies.calm.encloses id (.inr ⟨Nat.le_of_not_lt old, there⟩) _ member _ rfl
      exact inside.elim (fun held => Nat.lt_of_lt_of_le held.1 supplies.grows.size_le) And.right
    · rw [Heap.contents, Heap.container_of_size_le (Nat.le_of_not_lt there)] at member
      exact absurd member List.not_mem_nil

/-- What is there when only containers are made is its own counterpart. -/
theorem shift_value {reach : Reach} (more : reach.Supplies heap other []) {value : Value}
    (there : heap.Known value) : (Renaming.shift heap other).value value = value := by
  have still {before after index : Nat} (same : after = before) :
      shiftIndex before after index = index := by
    rw [shiftIndex, same]
    split <;> omega
  cases value with
  | container id => exact congrArg Value.container (Renaming.shift_container (there id rfl))
  | function id =>
      exact congrArg (fun index => Value.function ⟨index⟩)
        (still (congrArg Array.size more.closures))
  | event id =>
      exact congrArg (fun index => Value.event ⟨index⟩) (still (congrArg Array.size more.events))
  | _ => rfl

/-- A heap in which only containers were made is the counterpart of the heap before. -/
theorem mirrors (grounded : floor.Grounded known)
    (supplies : (floor.realm tracker).Supplies floor heap [])
    (more : (floor.realm tracker).Supplies heap other []) :
    heap.Mirrors (.shift heap other) (fun _ => True) (fun _ => True) other := by
  have restates : heap.Restates other :=
    { containers_le := more.grows.size_le
      owner := fun id there => congrArg Container.owner (more.grows.container id there)
      kind := fun id there => congrArg (fun found => found.contents.isArray)
        (more.grows.container id there)
      closures_le := Nat.le_of_eq (congrArg Array.size more.closures.symm)
      closure := fun id _ => by rw [more.closures]
      events_le := Nat.le_of_eq (congrArg Array.size more.events.symm)
      event := fun id _ => by rw [Heap.event, more.events, Heap.event] }
  refine restates.mirrors_of_fixed (fun id key => more.shift_value (known_of_peek grounded supplies id key))
    (fun closure member => ?_) (fun access _ there => ?_) (fun access _ there => ?_)
  · rw [supplies.closures] at member
    obtain ⟨⟨-, there⟩, bound⟩ := grounded.closures closure member
    have data : (Renaming.shift heap other).scope closure.scope = closure.scope := by
      refine congrArg (Scope.mk closure.scope.tracker) ?_
      cases held : closure.scope.data with
      | none => rfl
      | some id =>
          exact congrArg some (Renaming.shift_container (Nat.lt_of_lt_of_le (there id held)
            supplies.grows.size_le))
    have seen : (Renaming.shift heap other).bindings closure.bindings = closure.bindings :=
      Renaming.bindings_of_fixed _ fun entry listed =>
        more.shift_value (Value.In.grow (bound entry listed) supplies.grows.size_le)
    rw [Renaming.closure, data, seen]
  · have same := more.grows.container access.container there
    exact ⟨by rw [Heap.peek, Heap.contents, same]; rfl, by rw [Heap.contains, Heap.contents, same]; rfl,
      fun _ _ => by rw [Heap.contents, same]; rfl⟩
  · rw [Heap.contains, Heap.contents, more.grows.container access.container there]
    rfl

end Reach.Supplies

end LiveMarkup
