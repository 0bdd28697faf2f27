import LiveMarkup.Proofs.Expr.Grounded
import LiveMarkup.Proofs.Heap.Copy

/-!
# Trackers keep to their own containers

Code makes containers for any of the trackers, writes what it has into any container that it has,
evaluates expressions over any of them, and defines effects that do the same.  Whatever it does, no
container ever holds what belongs to another tracker: a value is taken as it is by its own tracker,
and any other tracker takes a copy that shares nothing with it.
-/

namespace LiveMarkup

variable {σ : Type}

/-! ## Operations -/

/-- Something that code does with trackers and containers. -/
inductive Operation (σ : Type) where
  /-- Makes an object with the given properties. -/
  | object (tracker : TrackerId) (entries : List (Key × Value))
  /-- Makes an array with the given items. -/
  | array (tracker : TrackerId) (items : List Value)
  /-- Puts a value under the control of a tracker. -/
  | adopt (tracker : TrackerId) (value : Value)
  /-- Puts JSON data under the control of a tracker. -/
  | data (tracker : TrackerId) (json : Json)
  /-- Writes a property; a refusal is reported. -/
  | set (target : ContainerId) (key : Key) (value : Value)
  /-- Writes a property; a refusal is the answer. -/
  | trySet (target : ContainerId) (key : Key) (value : Value)
  /-- Appends to an array. -/
  | push (target : ContainerId) (value : Value)
  /-- Removes the last item of an array. -/
  | pop (target : ContainerId)
  /-- Evaluates an expression. -/
  | evaluate (source : String) (scope : Scope) (bindings : Bindings)
  /-- Defines an effect and runs it. -/
  | effect (tracker : TrackerId) (body : TaskM σ Value)

namespace Operation

/-- What an operation runs. -/
def computation : Operation σ → TaskM σ Value
  | object tracker entries => TaskM.make (.object tracker entries)
  | array tracker items => TaskM.make (.array tracker items)
  | adopt tracker value => TaskM.make (.adopt tracker value)
  | data tracker json => TaskM.make (.data tracker json)
  | set target key value => do
      TaskM.set target key value
      return .undefined
  | trySet target key value => do
      let _ ← TaskM.tryWrite target key value
      return .undefined
  | push target value => do return .ofNat (← TaskM.push target value)
  | pop target => TaskM.pop target
  | evaluate source scope bindings => LiveMarkup.evaluate source scope bindings
  | effect tracker body => do
      let _ ← TaskM.createEffect tracker body
      return .undefined

/-- Whether an operation is given only what exists in a world. -/
def Allowed (world : World σ) : Operation σ → Prop
  | object tracker entries => world.store.HasTracker tracker ∧
      ∀ entry ∈ entries, world.store.heap.Known entry.2
  | array tracker items => world.store.HasTracker tracker ∧
      ∀ item ∈ items, world.store.heap.Known item
  | adopt tracker value => world.store.HasTracker tracker ∧ world.store.heap.Known value
  | data tracker _ => world.store.HasTracker tracker
  | set target _ value | trySet target _ value | push target value =>
      target.index < world.store.heap.containers.size ∧ world.store.heap.Known value
  | pop target => target.index < world.store.heap.containers.size
  | evaluate _ scope bindings =>
      Expr.Sees world.store.HasTracker scope bindings world.store.heap.containers.size
  | effect tracker body => world.store.HasTracker tracker ∧
      body.Grounded world.store.HasTracker world.store.heap.containers.size Value.Fits

theorem grounded {world : World σ} {operation : Operation σ} (allowed : operation.Allowed world) :
    operation.computation.Grounded world.store.HasTracker world.store.heap.containers.size
      Value.Fits := by
  have nothing {size : Nat} : (pure .undefined : TaskM σ Value).Grounded world.store.HasTracker size
      Value.Fits := TaskM.grounded_pure fun _ same => nomatch same
  cases operation with
  | object tracker entries => exact TaskM.grounded_make allowed
  | array tracker items => exact TaskM.grounded_make allowed
  | adopt tracker value => exact TaskM.grounded_make allowed
  | data tracker json => exact TaskM.grounded_make allowed
  | set target key value =>
      exact (TaskM.grounded_set allowed.1 key allowed.2).bind fun _ _ _ _ => nothing
  | trySet target key value =>
      exact (TaskM.grounded_tryWrite allowed.1 key allowed.2).bind fun _ _ _ _ => nothing
  | push target value =>
      refine (TaskM.grounded_push allowed.1 allowed.2).bind fun _ _ _ _ => ?_
      exact TaskM.grounded_pure fun _ same => nomatch same
  | pop target => exact TaskM.grounded_pop allowed
  | evaluate source scope bindings => exact grounded_evaluate allowed source
  | effect tracker body => exact (allowed.2.createEffect allowed.1).bind fun _ _ _ _ => nothing

end Operation

/-! ## Attained worlds -/

namespace World

/-- Whether a world is what some operations lead to, from trackers in which nothing has happened. -/
inductive Attained : World σ → Prop
  /-- Nothing has happened. -/
  | start {configs : List Config} (some : configs ≠ []) (surroundings : σ) :
      Attained ⟨.new configs, surroundings, #[]⟩
  /-- An operation is run. -/
  | run {world : World σ} {operation : Operation σ} (attained : Attained world)
      (allowed : operation.Allowed world) : Attained (world.exec operation.computation).2

/-- Whether a world is there between operations, or at some point inside of one, with all effects
that are running then. -/
inductive Visited : World σ → Prop
  /-- It is there between operations. -/
  | between {world : World σ} (attained : Attained world) : Visited world
  /-- It is there at a point of the run of an operation. -/
  | inside {world after : World σ} {operation : Operation σ} {passed : List (Point σ)}
      {result : Except Fault Value} {point : Point σ} (attained : Attained world)
      (allowed : operation.Allowed world)
      (runs : Point.Runs ⟨[], .task operation.computation.toTask, world⟩ passed result after)
      (member : point ∈ passed) : Visited point.world

theorem start_grounded {configs : List Config} (some : configs ≠ []) (surroundings : σ) :
    (⟨.new configs, surroundings, #[]⟩ : World σ).Grounded where
  heap :=
    { closed := fun _ known => absurd known (Nat.not_lt_zero _)
      owned := fun _ => by
        have trackers : 0 < configs.length := List.length_pos_iff.mpr some
        simpa [Store.HasTracker, Store.new, Heap.owner, Heap.container, Heap.empty] using trackers
      closures := fun _ member => absurd member (Array.not_mem_empty _) }
  bodies _ member := absurd member (Array.not_mem_empty _)

/-- An operation keeps everything grounded, at its end and at all points of its run. -/
theorem Grounded.along {world after : World σ} {operation : Operation σ}
    {passed : List (Point σ)} {result : Except Fault Value} (grounded : world.Grounded)
    (allowed : operation.Allowed world)
    (runs : Point.Runs ⟨[], .task operation.computation.toTask, world⟩ passed result after) :
    (∀ point ∈ passed, point.Grounded) ∧ Point.Leaves result after :=
  Point.grounded_kept.along runs ⟨grounded, operation.grounded allowed |>.toTask⟩

theorem Attained.grounded {world : World σ} (attained : world.Attained) : world.Grounded := by
  induction attained with
  | start some surroundings => exact start_grounded some surroundings
  | run _ allowed ih =>
      obtain ⟨passed, runs⟩ := exec_runs_of_kept Point.grounded_kept
        ⟨ih, (Operation.grounded allowed).toTask⟩
      exact (ih.along allowed runs).2.1

theorem Visited.grounded {world : World σ} (visited : world.Visited) : world.Grounded := by
  cases visited with
  | between attained => exact attained.grounded
  | inside attained allowed runs member =>
      exact ((attained.grounded.along allowed runs).1 _ member).world

/-! ## Ownership -/

/-- In every world that is attained, also inside of operations and effects, containers hold only what
belongs to their own tracker.  A tracker takes its own values as they are.  Of a container of another
tracker it takes a copy, if no cycle forbids that; the copy leads to new containers only and leaves
the old ones as they were. -/
theorem ownership_closed {world : World σ} (visited : world.Visited) :
    world.store.heap.Closed ∧
      (∀ tracker value, world.store.heap.Belongs tracker value →
        world.store.perform (.adopt tracker value) = (value, world.store)) ∧
      ∀ tracker root, root.index < world.store.heap.containers.size →
        world.store.heap.owner root ≠ tracker → world.store.heap.Acyclic root →
        ∃ copy after, world.store.heap.CopiedBy tracker root copy after ∧
          world.store.perform (.adopt tracker (.container root)) =
            (.container copy, { world.store with heap := after }) := by
  have closed := visited.grounded.heap.closed
  refine ⟨closed, fun tracker value own => ?_, fun tracker root known foreign acyclic => ?_⟩
  · have taken : Request.perform (.adopt tracker value) world.store.heap =
        (value, world.store.heap) := Heap.adopt_of_belongs fun id same => (own id same).2
    rw [Store.perform, taken]
  · obtain ⟨copy, after, copied⟩ := Heap.copiedBy_of_acyclic closed known foreign acyclic
    refine ⟨copy, after, copied, ?_⟩
    have taken : Request.perform (.adopt tracker (.container root)) world.store.heap =
        (.container copy, after) := copied.adopted _ (Nat.le_refl _)
    rw [Store.perform, taken]

/-- Two trackers.  The first one has an array in an object, and an object of the second one was made
with that object in it. -/
def lent : World Unit :=
  let trackers : World Unit := ⟨.new [.default, .default], (), #[]⟩
  let items := (trackers.exec (Operation.array ⟨0⟩ []).computation).2
  let owned := (items.exec (Operation.object ⟨0⟩ [(.name "a", .container ⟨0⟩)]).computation).2
  (owned.exec (Operation.object ⟨1⟩ [(.name "b", .container ⟨1⟩)]).computation).2

theorem lent_visited : lent.Visited := by
  refine .between (.run (.run (.run (.start (by simp) ()) ?_) ?_) ?_)
  · exact ⟨by decide, fun _ member => absurd member List.not_mem_nil⟩
  · refine ⟨by decide, fun entry member => ?_⟩
    obtain rfl := List.mem_singleton.mp member
    exact fun id same => Value.container.inj same ▸ by decide
  · refine ⟨by decide, fun entry member => ?_⟩
    obtain rfl := List.mem_singleton.mp member
    exact fun id same => Value.container.inj same ▸ by decide

theorem lent_acyclic (root : ContainerId) : lent.store.heap.Acyclic root := by
  refine Heap.acyclic_of_descends (fun id other held => ?_) root
  obtain ⟨index⟩ := id
  match index with
  | 0 | 2 | _ + 5 => exact nomatch held
  | 1 | 3 | 4 =>
      obtain rfl := Value.container.inj (List.mem_singleton.mp held)
      decide

theorem lent_ownership : lent.Visited ∧ lent.store.heap.Closed ∧
    lent.store.perform (.adopt ⟨1⟩ (.container ⟨3⟩)) = (.container ⟨3⟩, lent.store) ∧
    ∃ copy after, lent.store.heap.CopiedBy ⟨1⟩ ⟨1⟩ copy after ∧
      lent.store.perform (.adopt ⟨1⟩ (.container ⟨1⟩)) =
        (.container copy, { lent.store with heap := after }) := by
  obtain ⟨closed, own, foreign⟩ := ownership_closed lent_visited
  refine ⟨lent_visited, closed, own ⟨1⟩ _ ?_, ?_⟩
  · exact fun id same => Value.container.inj same ▸ ⟨by decide, by decide⟩
  · exact foreign ⟨1⟩ ⟨1⟩ (by decide) (by decide) (lent_acyclic ⟨1⟩)

end World

end LiveMarkup
