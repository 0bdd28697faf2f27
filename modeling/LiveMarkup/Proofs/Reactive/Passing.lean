import LiveMarkup.Proofs.Reactive.History
import LiveMarkup.Proofs.Reactive.Standstill
import LiveMarkup.Proofs.Reactive.Yield

/-!
# What computations write

The points of a run tell which properties are written, even where a write leaves everything as it
was.  While all effects that are subscribed are running, a write enters no body, so the writes of a
run are those of the code itself, and they are found by following the code alone.
-/

namespace LiveMarkup

variable {σ : Type}

/-- Whether every effect that is subscribed to anything is running. -/
abbrev Store.Still (store : Store) : Prop := store.Engaged fun _ => True

namespace Store.Engaged

variable {store after : Store} {about : ContainerId → Prop}

/-- A write only subscribes effects that are running. -/
theorem put (engaged : store.Engaged about) (id : ContainerId) (key : Key) (value : Value) :
    (store.put id key value).2.Engaged about := by
  obtain ⟨taken, heap, reads, -, stored⟩ := put_cases store id key value
  have adopted : { store with heap := heap }.Engaged about := engaged.of_trackers rfl
  have tracked := adopted.track reads
  rcases stored with ⟨fault, refused⟩ | ⟨contents, -, stored⟩
  · rw [refused]
    exact tracked
  · rw [stored]
    exact tracked.of_trackers rfl

theorem takeLast (engaged : store.Engaged about) (id : ContainerId) :
    (store.takeLast id).2.2.Engaged about := by
  unfold Store.takeLast
  split
  · exact engaged.of_trackers rfl
  · exact engaged

end Store.Engaged

namespace Point

/-- Whether a point is about to write to a property of a container.  Taking the last item away counts
as a write to all of them. -/
inductive Writes : Point σ → ContainerId → Key → Prop
  /-- A value is written. -/
  | write {frames : List Frame} {id : ContainerId} {key : Key} {value : Value}
      {next : Except ReactiveFault Unit → Task σ} {world : World σ} :
      Writes ⟨frames, .task (.write id key value next), world⟩ id key
  /-- The last item is taken away. -/
  | pop {frames : List Frame} {id : ContainerId} {key : Key} {next : Value → Task σ}
      {world : World σ} : Writes ⟨frames, .task (.pop id next), world⟩ id key

/-- Whether a point writes to allowed properties only. -/
def Spares (allowed : ContainerId → Key → Prop) (point : Point σ) : Prop :=
  ∀ id key, point.Writes id key → allowed id key

variable {allowed : ContainerId → Key → Prop} {about : ContainerId → Prop}

theorem spares_of_idle {point : Point σ} (idle : ∀ task, point.work ≠ .task task) :
    point.Spares allowed := by
  intro id key writes
  cases writes <;> exact absurd rfl (idle _)

/-- Effects that are running are refused one after another. -/
theorem attempts_runs (allowed : ContainerId → Key → Prop) (bound : Nat) {tracker : TrackerId}
    {effects : List EffectId} {world : World σ} (frames : List Frame)
    (running : ∀ effect ∈ effects, (world.store.tracker tracker).isRunning effect = true) :
    ∃ passed, Runs ⟨frames, .attempts tracker effects, world⟩ passed (.ok .undefined)
        (world.fanOut (World.runEffect bound) tracker effects) ∧
      ∀ point ∈ passed, point.Spares allowed := by
  induction effects generalizing world with
  | nil => exact ⟨_, .ends .attempted, List.forall_mem_singleton.mpr (spares_of_idle (by simp))⟩
  | cons effect rest ih =>
      have here := running effect List.mem_cons_self
      have refusal : world.refusal? tracker effect = some (.cycle effect) := by
        rw [World.refusal?, if_pos here]
      let reported := world.settle tracker (.error (.reactive (.cycle effect)))
      obtain ⟨passed, runs, spares⟩ := @ih reported fun other listed => by
        have frames : (reported.store.tracker tracker).stack = (world.store.tracker tracker).stack :=
          Store.stack_report _ _ _ _
        rw [Tracker.isRunning, frames]
        exact running other (List.mem_cons_of_mem _ listed)
      have after : world.fanOut (World.runEffect bound) tracker (effect :: rest) =
          reported.fanOut (World.runEffect bound) tracker rest := by
        rw [World.fanOut, List.foldl_cons, World.runEffect_of_running here]
        rfl
      rw [after]
      refine ⟨_, .calls .attempts (.ends (.refused refusal)) runs, ?_⟩
      refine List.forall_mem_cons.mpr ⟨spares_of_idle (by simp), ?_⟩
      exact List.forall_mem_cons.mpr ⟨spares_of_idle (by simp), spares⟩

/-- Telling the readers of some properties passes no write where all readers are running. -/
theorem tell_runs_of_engaged (allowed : ContainerId → Key → Prop) (bound : Nat)
    {changed : List Access} {world : World σ} (frames : List Frame)
    (engaged : world.store.Engaged about) (inside : ∀ access ∈ changed, about access.container) :
    ∃ passed, Runs ⟨frames, .tell changed, world⟩ passed (.ok .undefined)
        (changed.foldl (World.trigger (World.runEffect bound)) world) ∧
      ∀ point ∈ passed, point.Spares allowed := by
  induction changed generalizing world with
  | nil => exact ⟨_, .ends .told, List.forall_mem_singleton.mpr (spares_of_idle (by simp))⟩
  | cons access rest ih =>
      have running : ∀ effect ∈ world.store.dependents access,
          (world.store.tracker (world.store.heap.owner access.container)).isRunning effect = true :=
        fun effect subscribed =>
          engaged _ access effect (inside access List.mem_cons_self) (Store.mem_dependents.mp subscribed)
      obtain ⟨called, attempts, calledSpares⟩ := attempts_runs allowed bound frames running
      obtain ⟨store, told, same⟩ : ∃ store, world.fanOut (World.runEffect bound)
          (world.store.heap.owner access.container) (world.store.dependents access) =
            { world with store := store } ∧ store.quiet = world.store.quiet :=
        World.fanOut_of_running running
      rw [told] at attempts
      obtain ⟨passed, runs, spares⟩ := @ih { world with store := store } (engaged.of_quiet same)
        fun other listed => inside other (List.mem_cons_of_mem _ listed)
      have after : (access :: rest).foldl (World.trigger (World.runEffect bound)) world =
          rest.foldl (World.trigger (World.runEffect bound)) { world with store := store } := by
        rw [List.foldl_cons, World.trigger, told]
      rw [after]
      refine ⟨_, .calls .tell attempts runs, ?_⟩
      refine List.forall_mem_cons.mpr ⟨spares_of_idle (by simp), fun point member => ?_⟩
      exact (List.mem_append.mp member).elim (calledSpares point) (spares point)

end Point

namespace TaskM

variable {α β : Type}

/-- Whether a computation leads from one world to another, goes on there with a result, and writes on
its way to allowed properties only. -/
structure Passes (allowed : ContainerId → Key → Prop) (bound : Nat) (computation : TaskM σ α)
    (world : World σ) (result : Except Fault α) (after : World σ) : Prop where
  /-- It leads there. -/
  ends : computation.Ends (World.runEffect bound) world result after
  /-- What comes after it has a history without other writes, so it has one together with that. -/
  history : ∀ next frames passed final last,
    Point.Runs ⟨frames, .task (next result), after⟩ passed final last →
      (∀ point ∈ passed, point.Spares allowed) →
        ∃ all, Point.Runs ⟨frames, .task (computation next), world⟩ all final last ∧
          ∀ point ∈ all, point.Spares allowed

namespace Passes

variable {allowed : ContainerId → Key → Prop} {bound : Nat} {world between after : World σ}
  {computation : TaskM σ α} {next : α → TaskM σ β}

theorem pure (a : α) (world : World σ) : Passes allowed bound (Pure.pure a) world (.ok a) world :=
  ⟨.pure a world, fun _ _ passed _ _ runs spares => ⟨passed, runs, spares⟩⟩

theorem fail (fault : Fault) (world : World σ) :
    Passes allowed bound (TaskM.fail fault : TaskM σ α) world (.error fault) world :=
  ⟨fun _ => rfl, fun _ _ passed _ _ runs spares => ⟨passed, runs, spares⟩⟩

theorem bind {a : α} {result : Except Fault β}
    (passes : Passes allowed bound computation world (.ok a) between)
    (later : Passes allowed bound (next a) between result after) :
    Passes allowed bound (computation >>= next) world result after where
  ends := passes.ends.bind later.ends
  history finish frames passed final last runs spares := by
    obtain ⟨rest, restRuns, restSpares⟩ := later.history finish frames passed final last runs spares
    exact passes.history _ frames rest final last restRuns restSpares

theorem bind_error {fault : Fault} (passes : Passes allowed bound computation world (.error fault) after) :
    Passes allowed bound (computation >>= next) world (.error fault) after where
  ends := passes.ends.bind_error
  history _ frames passed final last runs spares :=
    passes.history _ frames passed final last runs spares

/-- One step that is no write. -/
theorem of_goes {result : Except Fault α}
    (goes : ∀ next frames, Point.Goes ⟨frames, .task (computation next), world⟩
      ⟨frames, .task (next result), after⟩)
    (spares : ∀ next frames, Point.Spares allowed ⟨frames, .task (computation next), world⟩)
    (ends : computation.Ends (World.runEffect bound) world result after) :
    Passes allowed bound computation world result after :=
  ⟨ends, fun next frames _ _ _ runs rest =>
    ⟨_, .goes (goes next frames) runs, List.forall_mem_cons.mpr ⟨spares next frames, rest⟩⟩⟩

theorem look (observe : Heap → α) (world : World σ) :
    Passes allowed bound (TaskM.look observe) world (.ok (observe world.store.heap)) world :=
  of_goes (fun _ _ => .look) (fun _ _ _ _ writes => by cases writes) (.look observe world)

theorem has (id : ContainerId) (key : Key) (world : World σ) :
    Passes allowed bound (TaskM.has id key) world (.ok (world.store.heap.contains id key)) world :=
  of_goes (fun _ _ => .has) (fun _ _ _ _ writes => by cases writes) fun _ => rfl

theorem make (request : Request) (world : World σ) :
    Passes allowed bound (TaskM.make request) world (.ok (world.store.perform request).1)
      { world with store := (world.store.perform request).2 } :=
  of_goes (fun _ _ => .make) (fun _ _ _ _ writes => by cases writes) (.make request world)

/-- Reads are counted and nothing else happens. -/
theorem watch (computation : Heap → Watch α) (world : World σ) :
    Passes allowed bound (TaskM.watch computation) world
      (.ok ((computation world.store.heap).run #[]).1)
      (world.mapStore fun store => store.track ((computation world.store.heap).run #[]).2) where
  ends _ := rfl
  history next frames passed final last runs spares := by
    refine ⟨_, .goes .look (.goes .track runs), ?_⟩
    have looks : Point.Spares allowed ⟨frames, .task (TaskM.watch computation next), world⟩ :=
      fun _ _ writes => by cases writes
    have tracks : Point.Spares allowed
        ⟨frames, .task (.track ((computation world.store.heap).run #[]).2
          (next (.ok ((computation world.store.heap).run #[]).1))), world⟩ :=
      fun _ _ writes => by cases writes
    exact List.forall_mem_cons.mpr ⟨looks, List.forall_mem_cons.mpr ⟨tracks, spares⟩⟩

/-- Where all readers are running, telling them passes no write. -/
theorem tell {store : Store} {changed : List Access} (still : store.Still) (allowed bound) :
    ∃ told, changed.foldl (World.trigger (World.runEffect bound)) { world with store := store } =
        { world with store := told } ∧ told.heap = store.heap ∧ told.Still ∧
      ∀ frames, ∃ called, Point.Runs ⟨frames, .tell changed, { world with store := store }⟩ called
        (.ok .undefined) { world with store := told } ∧ ∀ point ∈ called, point.Spares allowed := by
  have inside : ∀ access ∈ changed, True := fun _ _ => trivial
  obtain ⟨told, ends, same⟩ : ∃ told, changed.foldl (World.trigger (World.runEffect bound))
      { world with store := store } = { world with store := told } ∧ told.quiet = store.quiet :=
    World.triggerAll_of_engaged still inside
  refine ⟨told, ends, Store.heap_eq_of_quiet same, still.of_quiet same, fun frames => ?_⟩
  rw [← ends]
  exact Point.tell_runs_of_engaged allowed bound frames still inside

/-- Where all readers are running, a write to an allowed property runs nothing. -/
theorem tryWrite {target : ContainerId} {key : Key} {value : Value} (still : world.store.Still)
    (permitted : allowed target key) :
    ∃ store, Passes allowed bound (TaskM.tryWrite target key value) world
        (.ok ((world.store.put target key value).1.map fun _ => ())) { world with store := store } ∧
      store.heap = (world.store.put target key value).2.heap ∧ store.Still := by
  have stays := still.put target key value
  have permits (next : Except Fault (Except ReactiveFault Unit) → Task σ) (frames : List Frame) :
      Point.Spares allowed ⟨frames, .task (TaskM.tryWrite target key value next), world⟩ := by
    intro id other writes
    cases writes
    exact permitted
  cases written : world.store.put target key value with
  | mk result after =>
      rw [written] at stays
      cases result with
      | error fault =>
          refine ⟨after, of_goes (fun _ _ => .refuse written) permits fun next => ?_, rfl, stays⟩
          simp only [TaskM.tryWrite, World.interpret, World.write, written]
          rfl
      | ok changed =>
          obtain ⟨store, told, heap, still, tells⟩ := tell stays allowed bound
          refine ⟨store, ⟨?_, fun next frames _ _ _ runs spares => ?_⟩, heap, still⟩
          · rw [← told]
            exact .tryWrite written
          · obtain ⟨called, callee, calledSpares⟩ := tells frames
            refine ⟨_, .calls (.write written) callee runs, ?_⟩
            refine List.forall_mem_cons.mpr ⟨permits next frames, fun point member => ?_⟩
            exact (List.mem_append.mp member).elim (calledSpares point) (spares point)

theorem pop {target : ContainerId} (still : world.store.Still) (permitted : ∀ key, allowed target key) :
    ∃ store, Passes allowed bound (TaskM.pop target) world
        (.ok (world.store.takeLast target).1) { world with store := store } ∧
      store.heap = (world.store.takeLast target).2.2.heap ∧ store.Still := by
  obtain ⟨store, told, heap, still, tells⟩ := tell (still.takeLast target) allowed bound
  refine ⟨store, ⟨?_, fun next frames _ _ _ runs spares => ?_⟩, heap, still⟩
  · rw [← told]
    exact .pop target world
  · obtain ⟨called, callee, calledSpares⟩ := tells frames
    refine ⟨_, .calls .pop callee runs, ?_⟩
    refine List.forall_mem_cons.mpr ⟨fun id key writes => ?_, fun point member => ?_⟩
    · cases writes
      exact permitted key
    · exact (List.mem_append.mp member).elim (calledSpares point) (spares point)

end Passes

end TaskM

end LiveMarkup
