import LiveMarkup.Proofs.Reactive.Simulation

/-!
# How computations end

A computation does not end by itself: it hands its result to whatever comes after it.  What it does
is therefore stated for every continuation.  A computation ends in a world if running it with any
continuation is running the continuation there, and a computation that changes nothing yields its
result together with the trace of what it has looked at.
-/

namespace LiveMarkup

namespace Trace

@[simp] theorem append_empty (trace : Trace) : trace.append empty = trace := by
  simp [append, empty]

@[simp] theorem empty_append (trace : Trace) : empty.append trace = trace := rfl

theorem append_assoc (first second third : Trace) :
    (first.append second).append third = first.append (second.append third) := by
  simp [append]

end Trace

namespace TaskM

variable {σ α β : Type}

/-! ## Worlds -/

/-- Whether a computation leads from one world to another and goes on there with a result. -/
def Ends (runner : World.Runner σ) (computation : TaskM σ α) (world : World σ)
    (result : Except Fault α) (after : World σ) : Prop :=
  ∀ next, World.interpret runner (computation next) world = World.interpret runner (next result) after

namespace Ends

variable {runner : World.Runner σ} {world between after : World σ} {computation : TaskM σ α}
  {next : α → TaskM σ β}

theorem pure (a : α) (world : World σ) : Ends runner (Pure.pure a) world (.ok a) world :=
  fun _ => rfl

theorem bind {a : α} {result : Except Fault β} (ends : Ends runner computation world (.ok a) between)
    (later : Ends runner (next a) between result after) :
    Ends runner (computation >>= next) world result after :=
  fun finish => (ends _).trans (later finish)

theorem bind_error {fault : Fault} (ends : Ends runner computation world (.error fault) after) :
    Ends runner (computation >>= next) world (.error fault) after :=
  fun _ => ends _

theorem attempt {result : Except Fault α} (ends : Ends runner computation world result after) :
    Ends runner computation.attempt world (.ok result) after :=
  fun _ => ends _

theorem ofExcept (result : Except Fault α) (world : World σ) :
    Ends runner (TaskM.ofExcept result) world result world :=
  fun _ => rfl

theorem survey (observe : σ → α) (world : World σ) :
    Ends runner (TaskM.survey observe) world (.ok (observe world.surroundings)) world :=
  fun _ => rfl

theorem alter (change : σ → σ) (world : World σ) :
    Ends runner (TaskM.alter change) world (.ok ())
      { world with surroundings := change world.surroundings } :=
  fun _ => rfl

theorem report (tracker : TrackerId) (fault : Fault) (world : World σ) :
    Ends runner (TaskM.report tracker fault) world (.ok ())
      (world.mapStore fun store => store.report tracker fault) :=
  fun _ => rfl

theorem look (observe : Heap → α) (world : World σ) :
    Ends runner (TaskM.look observe) world (.ok (observe world.store.heap)) world :=
  fun _ => rfl

theorem make (request : Request) (world : World σ) :
    Ends runner (TaskM.make request) world (.ok (world.store.perform request).1)
      { world with store := (world.store.perform request).2 } :=
  fun _ => rfl

/-- A write that is taken ends when all have been told. -/
theorem tryWrite {target : ContainerId} {key : Key} {value : Value} {changed : List Access}
    {written : Store} (accepted : world.store.put target key value = (.ok changed, written)) :
    Ends runner (TaskM.tryWrite target key value) world (.ok (.ok ()))
      (changed.foldl (World.trigger runner) { world with store := written }) := by
  intro next
  simp only [TaskM.tryWrite, World.interpret, World.write, accepted]

theorem pop (target : ContainerId) (world : World σ) :
    Ends runner (TaskM.pop target) world (.ok (world.store.takeLast target).1)
      ((world.store.takeLast target).2.1.foldl (World.trigger runner)
        { world with store := (world.store.takeLast target).2.2 }) :=
  fun _ => rfl

/-- A new effect is defined and then run as if it had been triggered. -/
theorem createEffect (tracker : TrackerId) (body : TaskM σ Value) (world : World σ) :
    Ends runner (TaskM.createEffect tracker body) world (.ok ⟨world.bodies.size⟩)
      ((world.define body.toTask).2.fanOut runner tracker [⟨world.bodies.size⟩]) := by
  intro next
  rw [World.fanOut, List.foldl_cons, List.foldl_nil]
  simp only [TaskM.createEffect, Bind.bind, TaskM.define, TaskM.tryRun, World.interpret, World.define]
  cases runner tracker ⟨world.bodies.size⟩ _ with
  | mk result after =>
      cases result with
      | ok done => rfl
      | error fault => rfl

/-- A computation ends in one way only. -/
theorem unique {result other : Except Fault α} {otherAfter : World σ}
    (ends : Ends runner computation world result after)
    (again : Ends runner computation world other otherAfter) :
    other = result ∧ otherAfter = after := by
  classical
  have same (next : Except Fault α → Task σ) := (again next).symm.trans (ends next)
  refine ⟨?_, congrArg Prod.snd (same fun _ => .done (.ok .undefined))⟩
  -- The continuation tells the result from all others.
  let told (outcome : Except Fault α) : Except Fault Value :=
    if outcome = result then .ok .null else .ok .undefined
  have agree : told other = told result := congrArg Prod.fst (same fun outcome => .done (told outcome))
  by_cases equal : other = result
  · exact equal
  · simp [told, equal] at agree

end Ends

end TaskM

/-! ## Effects -/

namespace World

variable {σ : Type} {bound : Nat} {tracker : TrackerId} {effect : EffectId} {world after : World σ}

/-- Reports the fault of a result to a tracker, if it is one. -/
def noting {α : Type} (tracker : TrackerId) (result : Except Fault α) (world : World σ) : World σ :=
  match result with
  | .ok _ => world
  | .error fault => world.mapStore fun store => store.report tracker fault

theorem fanOut_singleton {runner : Runner σ} {result : Except Fault Unit}
    (ran : runner tracker effect world = (result, after)) :
    world.fanOut runner tracker [effect] = after.noting tracker result := by
  rw [fanOut, List.foldl_cons, List.foldl_nil, ran]
  cases result <;> rfl

/-- An effect that is not refused runs its body within a frame of its own. -/
theorem runEffect_of_ends {computation : TaskM σ Value} {result : Except Fault Value}
    (allowed : world.refusal? tracker effect = none) (body : world.body effect = computation.toTask)
    (ends : computation.Ends (runEffect bound) (world.begin tracker effect) result after) :
    runEffect (bound + 1) tracker effect world = (result.map fun _ => (), after.leave tracker) := by
  rw [runEffect, allowed]
  dsimp only
  rw [body, TaskM.toTask, ends]
  rfl

end World

namespace TaskM

variable {σ α β : Type}

namespace Ends

variable {bound : Nat} {tracker : TrackerId} {world after : World σ} {body : TaskM σ Value}

/-- A new effect that may run does so, and its fault is reported. -/
theorem createEffect_of_ends {result : Except Fault Value}
    (allowed : (world.define body.toTask).2.refusal? tracker ⟨world.bodies.size⟩ = none)
    (ends : body.Ends (World.runEffect bound)
      ((world.define body.toTask).2.begin tracker ⟨world.bodies.size⟩) result after) :
    Ends (World.runEffect (bound + 1)) (TaskM.createEffect tracker body) world
      (.ok ⟨world.bodies.size⟩) ((after.leave tracker).noting tracker result) := by
  have given : (world.define body.toTask).2.body ⟨world.bodies.size⟩ = body.toTask := by
    simp [World.body, World.define]
  have created : Ends (World.runEffect (bound + 1)) (TaskM.createEffect tracker body) world _ _ :=
    .createEffect tracker body world
  rw [World.fanOut_singleton (World.runEffect_of_ends allowed given ends)] at created
  cases result <;> exact created

/-- A new effect that may not run is refused. -/
theorem createEffect_of_refused {fault : ReactiveFault}
    (refused : (world.define body.toTask).2.refusal? tracker ⟨world.bodies.size⟩ = some fault) :
    Ends (World.runEffect bound) (TaskM.createEffect tracker body) world (.ok ⟨world.bodies.size⟩)
      ((world.define body.toTask).2.noting tracker (.error (.reactive fault) : Except Fault Unit)) := by
  have ran : World.runEffect bound tracker ⟨world.bodies.size⟩ (world.define body.toTask).2 =
      (.error (.reactive fault), (world.define body.toTask).2) := by
    unfold World.runEffect
    rw [refused]
  have created : Ends (World.runEffect bound) (TaskM.createEffect tracker body) world _ _ :=
    .createEffect tracker body world
  rw [World.fanOut_singleton ran] at created
  exact created

end Ends

/-! ## Stores -/

/-- Whether a computation that changes nothing leads from one store to another, goes on there with a
result, and has looked at what the trace says. -/
structure Yields (computation : TaskM σ α) (before : Store) (result : Except Fault α) (after : Store)
    (trace : Trace) : Prop where
  /-- The computation ends in every world with that store. -/
  ends : ∀ (runner : World.Runner σ) (world : World σ), world.store = before →
    computation.Ends runner world result { world with store := after }
  /-- Following it with a continuation is following the continuation. -/
  observed : ∀ next, (computation next).observe before =
    ((next result).observe after).map fun rest => (rest.1, rest.2.1, trace.append rest.2.2)

namespace Yields

variable {before between after : Store} {computation : TaskM σ α} {next : α → TaskM σ β}
  {first second : Trace}

theorem ofExcept (result : Except Fault α) (store : Store) :
    Yields (σ := σ) (TaskM.ofExcept result) store result store .empty where
  ends _ world same := by
    subst same
    exact .ofExcept result world
  observed continuation := by
    change (continuation result).observe store = _
    cases (continuation result).observe store <;> rfl

theorem pure (a : α) (store : Store) : Yields (σ := σ) (Pure.pure a) store (.ok a) store .empty :=
  ofExcept (.ok a) store

theorem fail (fault : Fault) (store : Store) :
    Yields (σ := σ) (α := α) (TaskM.fail fault) store (.error fault) store .empty :=
  ofExcept (.error fault) store

theorem bind {a : α} {result : Except Fault β} (yields : Yields computation before (.ok a) between first)
    (later : Yields (next a) between result after second) :
    Yields (computation >>= next) before result after (first.append second) where
  ends runner world same := (yields.ends runner world same).bind (later.ends runner _ rfl)
  observed continuation := by
    refine (yields.observed _).trans ?_
    change Option.map _ ((next a continuation).observe between) = _
    rw [later.observed, Option.map_map]
    refine congrArg (fun extend => Option.map extend _) (funext fun rest => ?_)
    simp only [Function.comp_apply, Trace.append_assoc]

theorem bind_error {fault : Fault} (yields : Yields computation before (.error fault) after first) :
    Yields (computation >>= next) before (.error fault) after first where
  ends runner world same := (yields.ends runner world same).bind_error
  observed _ := yields.observed _

theorem look (observe : Heap → α) (store : Store) :
    Yields (σ := σ) (TaskM.look observe) store (.ok (observe store.heap)) store .empty where
  ends _ world same _ := by
    subst same
    rfl
  observed continuation := by
    change (continuation (.ok (observe store.heap))).observe store = _
    cases (continuation (.ok (observe store.heap))).observe store <;> rfl

theorem has (target : ContainerId) (key : Key) (store : Store) :
    Yields (σ := σ) (TaskM.has target key) store (.ok (store.heap.contains target key)) store
      ⟨[], [⟨target, key⟩], []⟩ where
  ends _ world same _ := by
    subst same
    rfl
  observed _ := rfl

theorem watch (computation : Heap → Watch α) (store : Store) :
    Yields (σ := σ) (TaskM.watch computation) store (.ok ((computation store.heap).run #[]).1)
      (store.track ((computation store.heap).run #[]).2)
      ⟨((computation store.heap).run #[]).2.toList, [], []⟩ where
  ends _ world same _ := by
    subst same
    rfl
  observed _ := rfl

theorem make (request : Request) (store : Store) :
    Yields (σ := σ) (TaskM.make request) store (.ok (store.perform request).1)
      (store.perform request).2 ⟨[], [], store.heap.copiedBy request⟩ where
  ends _ world same _ := by
    subst same
    rfl
  observed _ := rfl

/-- A computation is followed to its end if nothing comes after it. -/
theorem observe_done {result : Except Fault α} {trace : Trace}
    (yields : Yields computation before result after trace) (finish : Except Fault α → Except Fault Value) :
    (computation fun outcome => .done (finish outcome)).observe before =
      some (finish result, after, trace) := by
  rw [yields.observed, Task.observe, Option.map_some, Trace.append_empty]

theorem steady {result : Except Fault α} {trace : Trace}
    (yields : Yields computation before result after trace) : before.Steady after :=
  Task.observe_steady (yields.observe_done fun _ => .ok .undefined)

theorem mem_dependents {result : Except Fault α} {trace : Trace}
    (yields : Yields computation before result after trace) {access : Access} {effect : EffectId}
    (known : access.container.index < before.heap.containers.size) :
    effect ∈ after.dependents access ↔ effect ∈ before.dependents access ∨
      access ∈ trace.reads ∧ before.HasTracker (before.heap.owner access.container) ∧
        (before.tracker (before.heap.owner access.container)).current = some effect :=
  Task.mem_dependents_observe (yields.observe_done fun _ => .ok .undefined) known

/-- A computation that changes nothing has one outcome. -/
theorem unique {result other : Except Fault α} {otherAfter : Store} {trace otherTrace : Trace}
    (yields : Yields computation before result after trace)
    (again : Yields computation before other otherAfter otherTrace) :
    other = result ∧ otherAfter = after ∧ otherTrace = trace := by
  classical
  let finish (outcome : Except Fault α) : Except Fault Value :=
    if outcome = result then .ok .null else .ok .undefined
  have same := (again.observe_done finish).symm.trans (yields.observe_done finish)
  simp only [Option.some.injEq, Prod.mk.injEq] at same
  obtain ⟨outcome, rfl, rfl⟩ := same
  refine ⟨Decidable.byContradiction fun differs => ?_, rfl, rfl⟩
  simp [finish, if_neg differs] at outcome

end Yields

/-- A computation that is simulated by another one yields what the other yields the counterpart of. -/
theorem Simulates.yields {ρ : Renaming} {reads probes : Access → Prop} {rename : α → β}
    {computation : TaskM σ α} {counterpart : TaskM σ β}
    (simulates : Simulates ρ reads probes rename computation counterpart)
    {before after otherBefore otherAfter : Store} {result : Except Fault α} {other : Except Fault β}
    {trace otherTrace : Trace} (mirrors : before.heap.Mirrors ρ reads probes otherBefore.heap)
    (yields : computation.Yields before result after trace) (within : trace.Within reads probes)
    (otherYields : counterpart.Yields otherBefore other otherAfter otherTrace) :
    other = result.map rename ∧ after.heap.Mirrors ρ reads probes otherAfter.heap := by
  classical
  -- The continuations tell the expected results from all others; the first is not followed there.
  let finish (outcome : Except Fault α) : Task σ :=
    if outcome = result then .done (.ok .null) else .survey fun _ => .done (.ok .null)
  let otherFinish (outcome : Except Fault β) : Except Fault Value :=
    if outcome = result.map rename then .ok .null else .ok .undefined
  have matched := simulates finish (fun outcome => .done (otherFinish outcome))
    (fun outcome here there mirrors => by
      by_cases same : outcome = result
      · subst same
        simp only [finish, otherFinish, if_pos]
        exact Task.Matches.done (.ok .null) mirrors
      · simp only [finish, if_neg same]
        exact fun _ _ _ observed => by contradiction)
    before otherBefore mirrors
  have observed : (computation finish).observe before = some (.ok .null, after, trace) := by
    rw [yields.observed]
    simp only [finish, if_pos, Task.observe, Option.map_some, Trace.append_empty]
  obtain ⟨reached, reachedTrace, otherObserved, mirrored⟩ := matched _ _ _ observed within
  have same := (otherYields.observe_done otherFinish).symm.trans otherObserved
  simp only [Option.some.injEq, Prod.mk.injEq] at same
  obtain ⟨outcome, rfl, _⟩ := same
  refine ⟨Decidable.byContradiction fun differs => ?_, mirrored⟩
  simp only [otherFinish, if_neg differs] at outcome
  change Except.ok Value.undefined = .ok Value.null at outcome
  simp at outcome

end TaskM

end LiveMarkup
