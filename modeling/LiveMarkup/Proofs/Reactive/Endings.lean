import LiveMarkup.Proofs.Reactive.Attribution

/-!
# How bodies end

Whether a body ends well or in a fault makes no difference to anything but the list of faults, as
long as nobody looks at that list or at the outcome of an effect.  Two tasks are parallel if they
take the same steps and differ at most in how they end and in the faults they report.  Parallel
tasks in worlds that differ in nothing else attempt the same effects, in the same order and each
time in the same state.
-/

namespace LiveMarkup

namespace Tracker

theorem dropErrors_subscribe (tracker : Tracker) (access : Access) (effect : EffectId) :
    (tracker.subscribe access effect).dropErrors = tracker.dropErrors.subscribe access effect := by
  by_cases present : effect ∈ tracker.dependents access
  · have still : effect ∈ tracker.dropErrors.dependents access := present
    rw [subscribe_of_mem present, subscribe_of_mem still]
  · have still : effect ∉ tracker.dropErrors.dependents access := present
    rw [subscribe_of_not_mem present, subscribe_of_not_mem still]
    rfl

theorem dropErrors_track (tracker : Tracker) (access : Access) :
    (tracker.track access).dropErrors = tracker.dropErrors.track access := by
  have current : tracker.dropErrors.current = tracker.current := rfl
  unfold track
  rw [current]
  split
  · exact dropErrors_subscribe tracker access _
  · rfl

end Tracker

namespace Store

/-- A store without the faults that were reported. -/
def quiet (store : Store) : Store :=
  { store with trackers := store.trackers.map Tracker.dropErrors }

theorem heap_eq_of_quiet {store twin : Store} (same : store.quiet = twin.quiet) :
    store.heap = twin.heap := by
  have heaps := congrArg Store.heap same
  exact heaps

theorem tracker_quiet (store : Store) (id : TrackerId) :
    store.quiet.tracker id = (store.tracker id).dropErrors := by
  rw [tracker, tracker, quiet, Array.getElem?_map]
  cases store.trackers[id.index]? <;> rfl

/-- A change that does not touch faults can be made before or after they are dropped. -/
theorem quiet_modifyTracker (store : Store) (id : TrackerId) (change : Tracker → Tracker)
    (commutes : ∀ state, (change state).dropErrors = change state.dropErrors) :
    (store.modifyTracker id change).quiet = store.quiet.modifyTracker id change := by
  simp only [quiet, modifyTracker, Store.mk.injEq, true_and, and_true]
  refine Array.ext (by simp) fun index first second => ?_
  simp only [Array.getElem_map, Array.getElem_modify]
  split
  · exact commutes _
  · rfl

/-- A change of nothing but faults makes no difference when they are dropped. -/
theorem quiet_modifyErrors (store : Store) (id : TrackerId) (change : Tracker → Tracker)
    (silent : ∀ state, (change state).dropErrors = state.dropErrors) :
    (store.modifyTracker id change).quiet = store.quiet := by
  simp only [quiet, modifyTracker, Store.mk.injEq, true_and, and_true]
  refine Array.ext (by simp) fun index first second => ?_
  simp only [Array.getElem_map, Array.getElem_modify]
  split
  · exact silent _
  · rfl

theorem quiet_report (store : Store) (id : TrackerId) (fault : Fault) :
    (store.report id fault).quiet = store.quiet :=
  quiet_modifyErrors store id (fun state => state.report fault) fun _ => rfl

theorem quiet_track (store : Store) (reads : Array Access) :
    (store.track reads).quiet = store.quiet.track reads := by
  rw [track_eq_foldl, track_eq_foldl]
  induction reads.toList generalizing store with
  | nil => rfl
  | cons read rest ih =>
      have one : (store.trackOne read).quiet = store.quiet.trackOne read :=
        quiet_modifyTracker store _ (fun state => state.track read)
          fun state => state.dropErrors_track read
      rw [List.foldl_cons, List.foldl_cons, ih, one]

theorem watch_quiet {α : Type} (store : Store) (computation : Heap → Watch α) :
    store.quiet.watch computation =
      ((store.watch computation).1, (store.watch computation).2.quiet) := by
  refine Prod.ext rfl ?_
  rw [watch_snd, watch_snd, quiet_track]
  rfl

theorem lengthOf_quiet (store : Store) (value : Value) :
    store.quiet.lengthOf value = ((store.lengthOf value).1, (store.lengthOf value).2.quiet) := by
  simp only [lengthOf, watch_quiet]
  split <;> rfl

theorem contentsAfter_quiet (store : Store) (id : ContainerId) (key : Key) (value : Value) :
    store.quiet.contentsAfter id key value =
      ((store.contentsAfter id key value).1, (store.contentsAfter id key value).2.quiet) := by
  have same : store.quiet.heap = store.heap := rfl
  simp only [contentsAfter, lengthOf_quiet, same]
  split <;> rfl

/-- What a write does has nothing to do with faults. -/
theorem put_quiet (store : Store) (id : ContainerId) (key : Key) (value : Value) :
    store.quiet.put id key value =
      ((store.put id key value).1, (store.put id key value).2.quiet) := by
  have same : store.quiet.heap = store.heap := rfl
  cases made : store.perform (.adopt (store.heap.owner id) value) with
  | mk taken adopted =>
  have performed : store.quiet.perform (.adopt (store.heap.owner id) value) =
      (taken, adopted.quiet) := by
    rw [← (Prod.mk.inj made).1, ← (Prod.mk.inj made).2]
    rfl
  cases found : adopted.contentsAfter id key taken with
  | mk outcome after =>
  simp only [put, same, performed, made, contentsAfter_quiet, found]
  cases outcome <;> rfl

theorem takeLast_quiet (store : Store) (id : ContainerId) :
    store.quiet.takeLast id =
      ((store.takeLast id).1, (store.takeLast id).2.1, (store.takeLast id).2.2.quiet) := by
  have same : store.quiet.heap = store.heap := rfl
  simp only [takeLast, same]
  split <;> rfl

theorem dependents_quiet (store : Store) (access : Access) :
    store.quiet.dependents access = store.dependents access := by
  rw [dependents, tracker_quiet]
  rfl

end Store

/-! ## Parallel tasks -/

/-- How the ends of two tasks may be related. -/
abbrev EndRelation := Except Fault Value → Except Fault Value → Prop

/-- Whether two tasks take the same steps and end in related ways.  They may report different
faults, at different times, and they do not look at the faults that were reported or at how effects
end. -/
inductive Task.Parallel {σ : Type} : EndRelation → Task σ → Task σ → Prop
  /-- Both end. -/
  | done {ends : EndRelation} {result twin : Except Fault Value} (related : ends result twin) :
      Parallel ends (.done result) (.done twin)
  /-- Both look at the state, but not at the faults. -/
  | look {ends : EndRelation} {next other : Store → Task σ}
      (later : ∀ store twin, store.quiet = twin.quiet → Parallel ends (next store) (other twin)) :
      Parallel ends (.look next) (.look other)
  /-- Both look for a property. -/
  | has {ends : EndRelation} {target : ContainerId} {key : Key} {next other : Bool → Task σ}
      (later : ∀ present, Parallel ends (next present) (other present)) :
      Parallel ends (.has target key next) (.has target key other)
  /-- Both read. -/
  | track {ends : EndRelation} {reads : Array Access} {next other : Task σ}
      (later : Parallel ends next other) : Parallel ends (.track reads next) (.track reads other)
  /-- Both make something. -/
  | make {ends : EndRelation} {request : Request} {next other : Value → Task σ}
      (later : ∀ value, Parallel ends (next value) (other value)) :
      Parallel ends (.make request next) (.make request other)
  /-- Both write. -/
  | write {ends : EndRelation} {target : ContainerId} {key : Key} {value : Value}
      {next other : Except ReactiveFault Unit → Task σ}
      (later : ∀ result, Parallel ends (next result) (other result)) :
      Parallel ends (.write target key value next) (.write target key value other)
  /-- Both remove the last item of an array. -/
  | pop {ends : EndRelation} {target : ContainerId} {next other : Value → Task σ}
      (later : ∀ value, Parallel ends (next value) (other value)) :
      Parallel ends (.pop target next) (.pop target other)
  /-- Both define an effect, with bodies that may end in any way. -/
  | define {ends : EndRelation} {body twin : Task σ} {next other : EffectId → Task σ}
      (bodies : Parallel (fun _ _ => True) body twin)
      (later : ∀ effect, Parallel ends (next effect) (other effect)) :
      Parallel ends (.define body next) (.define twin other)
  /-- Both run an effect and go on in parallel however it ends. -/
  | run {ends : EndRelation} {tracker : TrackerId} {effect : EffectId}
      {next other : Except Fault Unit → Task σ}
      (later : ∀ result twin, Parallel ends (next result) (other twin)) :
      Parallel ends (.run tracker effect next) (.run tracker effect other)
  /-- Both enter a block whose reads count for no effect. -/
  | untracked {ends inside : EndRelation} {tracker : TrackerId} {block twin : Task σ}
      {next other : Except Fault Value → Task σ} (blocks : Parallel inside block twin)
      (later : ∀ result twin, inside result twin → Parallel ends (next result) (other twin)) :
      Parallel ends (.untracked tracker block next) (.untracked tracker twin other)
  /-- Both take the faults and go on in parallel whatever they are. -/
  | drain {ends : EndRelation} {tracker : TrackerId} {next other : List Fault → Task σ}
      (later : ∀ faults twin, Parallel ends (next faults) (other twin)) :
      Parallel ends (.drain tracker next) (.drain tracker other)
  /-- Both look at the surroundings. -/
  | survey {ends : EndRelation} {next other : σ → Task σ}
      (later : ∀ surroundings, Parallel ends (next surroundings) (other surroundings)) :
      Parallel ends (.survey next) (.survey other)
  /-- Both change the surroundings. -/
  | alter {ends : EndRelation} {change : σ → σ} {next other : Task σ}
      (later : Parallel ends next other) : Parallel ends (.alter change next) (.alter change other)
  /-- The first one reports a fault. -/
  | left {ends : EndRelation} {tracker : TrackerId} {fault : Fault} {next other : Task σ}
      (later : Parallel ends next other) : Parallel ends (.report tracker fault next) other
  /-- The second one reports a fault. -/
  | right {ends : EndRelation} {tracker : TrackerId} {fault : Fault} {next other : Task σ}
      (later : Parallel ends next other) : Parallel ends next (.report tracker fault other)

/-- Whether work is the same but for parallel tasks. -/
inductive Work.Parallel {σ : Type} (ends : EndRelation) : Work σ → Work σ → Prop
  /-- Parallel tasks are to run. -/
  | task {code twin : Task σ} (parallel : code.Parallel ends twin) :
      Parallel ends (.task code) (.task twin)
  /-- The same effect is to run. -/
  | attempt {tracker : TrackerId} {effect : EffectId} (any : ∀ result twin, ends result twin) :
      Parallel ends (.attempt tracker effect) (.attempt tracker effect)
  /-- The same effects are to run. -/
  | attempts {tracker : TrackerId} {effects : List EffectId}
      (any : ∀ result twin, ends result twin) :
      Parallel ends (.attempts tracker effects) (.attempts tracker effects)
  /-- The readers of the same properties are to run. -/
  | tell {changed : List Access} (any : ∀ result twin, ends result twin) :
      Parallel ends (.tell changed) (.tell changed)

/-! ## Bodies that differ in their ends -/

namespace TaskM

variable {σ α β : Type}

/-- Whether two computations take the same steps and hand the same result on. -/
def Parallel (computation twin : TaskM σ α) : Prop :=
  ∀ (ends : EndRelation) (next other : Except Fault α → Task σ),
    (∀ result, (next result).Parallel ends (other result)) →
      (computation next).Parallel ends (twin other)

namespace Parallel

theorem ofExcept (result : Except Fault α) :
    Parallel (TaskM.ofExcept result : TaskM σ α) (TaskM.ofExcept result) :=
  fun _ _ _ later => later result

theorem bind {computation twin : TaskM σ α} {next other : α → TaskM σ β}
    (parallel : computation.Parallel twin) (later : ∀ a, (next a).Parallel (other a)) :
    (computation >>= next).Parallel (twin >>= other) := by
  intro ends finish final same
  refine parallel ends _ _ fun result => ?_
  cases result with
  | error fault => exact same _
  | ok a => exact later a ends finish final same

theorem look (observe : Heap → α) :
    Parallel (TaskM.look observe : TaskM σ α) (TaskM.look observe) := by
  refine fun ends next other later => .look fun store twin same => ?_
  rw [Store.heap_eq_of_quiet same]
  exact later _

theorem watch (observe : Heap → Watch α) :
    Parallel (TaskM.watch observe : TaskM σ α) (TaskM.watch observe) := by
  refine fun ends next other later => .look fun store twin same => ?_
  rw [Store.heap_eq_of_quiet same]
  exact .track (later _)

theorem tryWrite (target : ContainerId) (key : Key) (value : Value) :
    Parallel (TaskM.tryWrite target key value : TaskM σ _) (TaskM.tryWrite target key value) :=
  fun _ _ _ later => .write fun _ => later _

theorem pop (target : ContainerId) :
    Parallel (TaskM.pop target : TaskM σ Value) (TaskM.pop target) :=
  fun _ _ _ later => .pop fun _ => later _

theorem report (tracker : TrackerId) (fault : Fault) :
    Parallel (TaskM.report tracker fault : TaskM σ Unit) (TaskM.report tracker fault) :=
  fun _ _ _ later => .left (.right (later _))

theorem set (target : ContainerId) (key : Key) (value : Value) :
    Parallel (TaskM.set target key value : TaskM σ Unit) (TaskM.set target key value) := by
  refine (tryWrite target key value).bind fun result => ?_
  cases result with
  | ok done => exact ofExcept (.ok ())
  | error fault => exact (look _).bind fun owner => report owner _

theorem push (target : ContainerId) (value : Value) :
    Parallel (TaskM.push target value : TaskM σ Nat) (TaskM.push target value) := by
  refine (look _).bind fun contents => ?_
  cases contents with
  | array items named => exact (set target _ value).bind fun _ => ofExcept (.ok _)
  | object properties => exact ofExcept (.ok 0)

/-- Every write takes its steps whatever faults have been reported. -/
theorem perform (target : ContainerId) (change : Write) :
    Parallel (change.perform target : TaskM σ Value) (change.perform target) := by
  cases change with
  | set key value => exact (set target key value).bind fun _ => ofExcept (.ok _)
  | trySet key value =>
      refine (tryWrite target key value).bind fun result => ?_
      cases result with
      | ok done => exact ofExcept (.ok _)
      | error fault => exact ofExcept (.error _)
  | push value => exact (push target value).bind fun _ => ofExcept (.ok _)
  | pop => exact pop target

/-- However the body of a new effect ends, whoever makes the effect goes on in the same way. -/
theorem createEffect {body twin : TaskM σ Value} (tracker : TrackerId)
    (bodies : body.toTask.Parallel (fun _ _ => True) twin.toTask) :
    (TaskM.createEffect tracker body).Parallel (TaskM.createEffect tracker twin) := by
  refine fun ends next other later => .define bodies fun effect => .run fun result twin => ?_
  cases result <;> cases twin
  · exact .left (.right (later _))
  · exact .left (later _)
  · exact .right (later _)
  · exact later _

theorem untracked {block twin : TaskM σ Value} (tracker : TrackerId)
    (blocks : block.toTask.Parallel Eq twin.toTask) :
    (TaskM.untracked tracker block).Parallel (TaskM.untracked tracker twin) :=
  fun _ _ _ later => .untracked blocks fun result _ same => same ▸ later result

end Parallel

/-- Whether two computations make the same calls, none of which runs an effect or takes faults, and
end in related ways.  New effects may have bodies that end in any way. -/
inductive Variant : EndRelation → TaskM σ Value → TaskM σ Value → Prop
  /-- Both end. -/
  | ends {ends : EndRelation} {result twin : Except Fault Value} (related : ends result twin) :
      Variant ends (TaskM.ofExcept result) (TaskM.ofExcept twin)
  /-- Both read, and go on with the answer. -/
  | read {ends : EndRelation} {answer : Type} {next other : answer → TaskM σ Value}
      (observe : Heap → Watch answer) (later : ∀ found, Variant ends (next found) (other found)) :
      Variant ends (TaskM.watch observe >>= next) (TaskM.watch observe >>= other)
  /-- Both write. -/
  | write {ends : EndRelation} {next other : Value → TaskM σ Value} (target : ContainerId)
      (change : Write) (later : ∀ value, Variant ends (next value) (other value)) :
      Variant ends (change.perform target >>= next) (change.perform target >>= other)
  /-- Both make an effect. -/
  | createEffect {ends : EndRelation} {body twin : TaskM σ Value}
      {next other : EffectId → TaskM σ Value} (tracker : TrackerId)
      (bodies : Variant (fun _ _ => True) body twin)
      (later : ∀ effect, Variant ends (next effect) (other effect)) :
      Variant ends (TaskM.createEffect tracker body >>= next)
        (TaskM.createEffect tracker twin >>= other)
  /-- Both run a block whose reads count for no effect. -/
  | untracked {ends : EndRelation} {block twin : TaskM σ Value}
      {next other : Value → TaskM σ Value} (tracker : TrackerId) (blocks : Variant Eq block twin)
      (later : ∀ value, Variant ends (next value) (other value)) :
      Variant ends (TaskM.untracked tracker block >>= next)
        (TaskM.untracked tracker twin >>= other)

/-- A call that both make, and then what each goes on with. -/
theorem Parallel.andThen {ends : EndRelation} {computation twin : TaskM σ α}
    {next other : α → TaskM σ Value} (parallel : computation.Parallel twin)
    (same : ∀ result, ends result result)
    (later : ∀ a, (next a).toTask.Parallel ends (other a).toTask) :
    (computation >>= next).toTask.Parallel ends (twin >>= other).toTask := by
  refine parallel ends _ _ fun result => ?_
  cases result with
  | error fault => exact .done (same _)
  | ok a => exact later a

/-- Computations that make the same calls are parallel. -/
theorem Variant.parallel {ends : EndRelation} {computation twin : TaskM σ Value}
    (variant : Variant ends computation twin) (same : ∀ result, ends result result) :
    computation.toTask.Parallel ends twin.toTask := by
  induction variant with
  | ends related => exact .done related
  | read observe _ ih => exact (Parallel.watch observe).andThen same fun found => ih found same
  | write target change _ ih =>
      exact (Parallel.perform target change).andThen same fun value => ih value same
  | createEffect tracker _ _ inside ih =>
      exact (Parallel.createEffect tracker (inside fun _ => trivial)).andThen same
        fun effect => ih effect same
  | untracked tracker _ _ inside ih =>
      exact (Parallel.untracked tracker (inside fun _ => rfl)).andThen same
        fun value => ih value same

end TaskM

namespace World

variable {σ : Type}

/-- Whether two worlds differ in nothing but the faults that were reported and in how bodies of
effects end. -/
structure Alike (world other : World σ) : Prop where
  /-- The stores are the same but for faults. -/
  store : world.store.quiet = other.store.quiet
  /-- The surroundings are the same. -/
  surroundings : world.surroundings = other.surroundings
  /-- There are equally many effects. -/
  size : world.bodies.size = other.bodies.size
  /-- Their bodies take the same steps. -/
  bodies : ∀ effect, (world.body effect).Parallel (fun _ _ => True) (other.body effect)

namespace Alike

variable {world other : World σ}

theorem heap (alike : world.Alike other) : world.store.heap = other.store.heap :=
  Store.heap_eq_of_quiet alike.store

theorem tracker (alike : world.Alike other) (id : TrackerId) :
    (world.store.tracker id).dropErrors = (other.store.tracker id).dropErrors := by
  rw [← Store.tracker_quiet, alike.store, Store.tracker_quiet]

theorem dependents (alike : world.Alike other) (access : Access) :
    world.store.dependents access = other.store.dependents access := by
  rw [← Store.dependents_quiet, alike.store, Store.dependents_quiet]

theorem refusal? (alike : world.Alike other) (tracker : TrackerId) (effect : EffectId) :
    world.refusal? tracker effect = other.refusal? tracker effect := by
  have same (limit : World σ) : limit.refusal? tracker effect =
      (if (limit.store.tracker tracker).dropErrors.isRunning effect then some (.cycle effect)
      else if (limit.store.tracker tracker).dropErrors.config.maxEffectDepth ≤
          (limit.store.tracker tracker).dropErrors.stack.length then
        some (.depthExceeded (limit.store.tracker tracker).dropErrors.config.maxEffectDepth)
      else none) := rfl
  rw [same, alike.tracker, ← same]

/-- A change of the store that does not look at faults keeps worlds alike. -/
theorem withStore (alike : world.Alike other) {store twin : Store}
    (same : store.quiet = twin.quiet) :
    Alike { world with store := store } { other with store := twin } :=
  ⟨same, alike.surroundings, alike.size, alike.bodies⟩

theorem report (alike : world.Alike other) (tracker : TrackerId) (fault : Fault) :
    Alike (world.mapStore fun store => store.report tracker fault) other :=
  alike.withStore ((Store.quiet_report _ tracker fault).trans alike.store)

theorem symm_report (alike : world.Alike other) (tracker : TrackerId) (fault : Fault) :
    Alike world (other.mapStore fun store => store.report tracker fault) :=
  alike.withStore (alike.store.trans (Store.quiet_report _ tracker fault).symm)

theorem settle (alike : world.Alike other) (tracker : TrackerId)
    (outcome twin : Except Fault Value) :
    (world.settle tracker outcome).Alike (other.settle tracker twin) := by
  have first : (world.settle tracker outcome).Alike other := by
    cases outcome with
    | ok value => exact alike
    | error fault => exact alike.report tracker fault
  cases twin with
  | ok value => exact first
  | error fault => exact first.symm_report tracker fault

theorem modifyTracker (alike : world.Alike other) (id : TrackerId) (change : Tracker → Tracker)
    (commutes : ∀ state, (change state).dropErrors = change state.dropErrors) :
    Alike (world.mapStore fun store => store.modifyTracker id change)
      (other.mapStore fun store => store.modifyTracker id change) :=
  alike.withStore (by
    rw [Store.quiet_modifyTracker _ _ _ commutes, alike.store,
      Store.quiet_modifyTracker _ _ _ commutes])

theorem enter (alike : world.Alike other) (tracker : TrackerId) (frame : Option EffectId) :
    (world.enter tracker frame).Alike (other.enter tracker frame) :=
  alike.modifyTracker tracker (fun state => state.enter frame) fun _ => rfl

theorem leave (alike : world.Alike other) (tracker : TrackerId) :
    (world.leave tracker).Alike (other.leave tracker) :=
  alike.modifyTracker tracker Tracker.leave fun _ => rfl

theorem begin (alike : world.Alike other) (tracker : TrackerId) (effect : EffectId) :
    (world.begin tracker effect).Alike (other.begin tracker effect) := by
  refine Alike.enter (alike.withStore ?_) tracker (some effect)
  have runs := congrArg Store.runs alike.store
  have trackers := congrArg Store.trackers alike.store
  simp only [Store.quiet] at runs trackers ⊢
  rw [runs, trackers, alike.heap]

theorem define (alike : world.Alike other) {body twin : Task σ}
    (parallel : body.Parallel (fun _ _ => True) twin) :
    (world.define body).1 = (other.define twin).1 ∧
      (world.define body).2.Alike (other.define twin).2 := by
  have runs := congrArg Store.runs alike.store
  have trackers := congrArg Store.trackers alike.store
  refine ⟨congrArg EffectId.mk alike.size, ?_, alike.surroundings, ?_, fun effect => ?_⟩
  · simp only [Store.quiet, World.define] at runs trackers ⊢
    rw [runs, trackers, alike.heap]
  · simp [World.define, alike.size]
  · have known := alike.bodies effect
    simp only [World.body, World.define, Array.getElem?_push, ← alike.size] at known ⊢
    split
    · exact parallel
    · exact known

theorem perform (alike : world.Alike other) (request : Request) :
    (world.store.perform request).1 = (other.store.perform request).1 ∧
      (world.store.perform request).2.quiet = (other.store.perform request).2.quiet := by
  have same (store : Store) : store.quiet.perform request =
      ((store.perform request).1, (store.perform request).2.quiet) := rfl
  have both := same world.store
  rw [alike.store, same] at both
  exact ⟨(Prod.mk.inj both).1.symm, (Prod.mk.inj both).2.symm⟩

/-- A write is taken in both worlds or refused in both. -/
theorem put (alike : world.Alike other) {target : ContainerId} {key : Key} {value : Value}
    {outcome : Except ReactiveFault (List Access)} {store : Store}
    (written : world.store.put target key value = (outcome, store)) :
    ∃ twin, other.store.put target key value = (outcome, twin) ∧ store.quiet = twin.quiet := by
  have same := Store.put_quiet world.store target key value
  rw [alike.store, Store.put_quiet, written] at same
  obtain ⟨outcomes, stores⟩ := Prod.mk.inj same
  exact ⟨(other.store.put target key value).2, Prod.ext outcomes rfl, stores.symm⟩

theorem takeLast (alike : world.Alike other) (target : ContainerId) :
    (world.store.takeLast target).1 = (other.store.takeLast target).1 ∧
      (world.store.takeLast target).2.1 = (other.store.takeLast target).2.1 ∧
      (world.store.takeLast target).2.2.quiet = (other.store.takeLast target).2.2.quiet := by
  have same := Store.takeLast_quiet world.store target
  rw [alike.store, Store.takeLast_quiet] at same
  obtain ⟨value, rest⟩ := Prod.mk.inj same
  obtain ⟨changed, store⟩ := Prod.mk.inj rest
  exact ⟨value.symm, changed.symm, store.symm⟩

end Alike

end World

/-! ## Parallel runs -/

/-- Whether a task reports a fault next. -/
def Task.Reports {σ : Type} : Task σ → Prop
  | .report _ _ _ => True
  | _ => False

/-- Reports of the first task do not matter. -/
theorem Task.Parallel.of_report {σ : Type} {ends : EndRelation} {tracker : TrackerId}
    {fault : Fault} {code next twin : Task σ} (parallel : code.Parallel ends twin)
    (reports : code = .report tracker fault next) : next.Parallel ends twin := by
  induction parallel with
  | left later =>
      obtain ⟨_, _, rfl⟩ := Task.report.inj reports
      exact later
  | right _ ih => exact .right (ih reports)
  | _ => contradiction

namespace Point

open World

variable {σ : Type}

/-- What is attempted at a point, and in which state: everything but the faults. -/
def attempted? (point : Point σ) : Option (TrackerId × EffectId × Store × σ) :=
  match point.work with
  | .attempt tracker effect =>
      some (tracker, effect, point.world.store.quiet, point.world.surroundings)
  | _ => none

theorem attempted?_eq {world other : World σ} (alike : world.Alike other) {frames : List Frame}
    {tracker : TrackerId} {effect : EffectId} :
    attempted? ⟨frames, .attempt tracker effect, other⟩ =
      attempted? ⟨frames, .attempt tracker effect, world⟩ := by
  rw [attempted?, attempted?, alike.store, alike.surroundings]

/-- Whether two points differ in nothing but faults that were reported, faults that will be, and
ends of tasks. -/
structure Alike (ends : EndRelation) (point other : Point σ) : Prop where
  /-- The same is open. -/
  frames : point.frames = other.frames
  /-- What is to be done is parallel. -/
  work : point.work.Parallel ends other.work
  /-- The worlds are alike. -/
  world : point.world.Alike other.world

/-- Whether a run passes some points, one after another, before it comes to a point. -/
inductive Leads : Point σ → List (Point σ) → Point σ → Prop
  /-- It is there. -/
  | here {point : Point σ} : Leads point [] point
  /-- It goes on to another point. -/
  | goes {point next final : Point σ} {passed : List (Point σ)} (goes : point.Goes next)
      (later : Leads next passed final) : Leads point (point :: passed) final

theorem Goes.attempted? {point next : Point σ} (goes : point.Goes next) :
    point.attempted? = none := by
  cases goes <;> rfl

theorem Leads.runs {point final : Point σ} {before passed : List (Point σ)}
    {result : Except Fault Value} {after : World σ} (leads : point.Leads before final)
    (runs : final.Runs passed result after) : point.Runs (before ++ passed) result after := by
  induction leads with
  | here => exact runs
  | goes goes _ ih => exact .goes goes (ih runs)

/-- Nothing is attempted on the way. -/
theorem Leads.attempted? {point final : Point σ} {before : List (Point σ)}
    (leads : point.Leads before final) : before.filterMap Point.attempted? = [] := by
  induction leads with
  | here => rfl
  | goes goes _ ih => rw [List.filterMap_cons, goes.attempted?, ih]

theorem Leads.trans {point between final : Point σ} {before later : List (Point σ)}
    (leads : point.Leads before between) (onward : between.Leads later final) :
    point.Leads (before ++ later) final := by
  induction leads with
  | here => exact onward
  | goes goes _ ih => exact .goes goes (ih onward)

/-- Where the first task does not report, the second one comes to the same step after some reports.
-/
theorem leads_of_parallel {ends : EndRelation} {code twin : Task σ} {world other : World σ}
    (parallel : code.Parallel ends twin) (speaks : ¬code.Reports) (frames : List Frame)
    (alike : world.Alike other) :
    ∃ passed head between, Leads ⟨frames, .task twin, other⟩ passed ⟨frames, .task head, between⟩ ∧
      world.Alike between ∧ code.Parallel ends head ∧ ¬head.Reports := by
  induction parallel generalizing other with
  | right _ ih =>
      obtain ⟨passed, head, between, leads, same, rest, silent⟩ :=
        ih speaks (alike.symm_report _ _)
      exact ⟨_, head, between, .goes .report leads, same, rest, silent⟩
  | left => exact absurd trivial speaks
  | done related => exact ⟨[], _, _, .here, alike, .done related, id⟩
  | look later => exact ⟨[], _, _, .here, alike, .look later, id⟩
  | has later => exact ⟨[], _, _, .here, alike, .has later, id⟩
  | track later => exact ⟨[], _, _, .here, alike, .track later, id⟩
  | make later => exact ⟨[], _, _, .here, alike, .make later, id⟩
  | write later => exact ⟨[], _, _, .here, alike, .write later, id⟩
  | pop later => exact ⟨[], _, _, .here, alike, .pop later, id⟩
  | define bodies later => exact ⟨[], _, _, .here, alike, .define bodies later, id⟩
  | run later => exact ⟨[], _, _, .here, alike, .run later, id⟩
  | untracked blocks later => exact ⟨[], _, _, .here, alike, .untracked blocks later, id⟩
  | drain later => exact ⟨[], _, _, .here, alike, .drain later, id⟩
  | survey later => exact ⟨[], _, _, .here, alike, .survey later, id⟩
  | alter later => exact ⟨[], _, _, .here, alike, .alter later, id⟩

theorem Alike.leads {ends : EndRelation} {frames : List Frame} {code : Task σ} {world : World σ}
    {other : Point σ} (alike : Alike ends ⟨frames, .task code, world⟩ other)
    (speaks : ¬code.Reports) :
    ∃ passed head between, other.Leads passed ⟨frames, .task head, between⟩ ∧
      world.Alike between ∧ code.Parallel ends head ∧ ¬head.Reports := by
  obtain ⟨otherFrames, work, otherWorld⟩ := other
  obtain ⟨rfl, parallel, worlds⟩ := alike
  cases parallel with
  | task parallel => exact leads_of_parallel parallel speaks frames worlds

/-- What one point goes on to is matched by what the other one comes to. -/
theorem Goes.parallel {ends : EndRelation} {point next other : Point σ} (goes : point.Goes next)
    (alike : point.Alike ends other) :
    ∃ passed final, other.Leads passed final ∧ next.Alike ends final := by
  cases goes with
  | look =>
      obtain ⟨passed, head, between, leads, same, parallel, speaks⟩ := alike.leads id
      cases parallel with
      | look later =>
          exact ⟨_, _, leads.trans (.goes .look .here), rfl, .task (later _ _ same.store), same⟩
      | right => exact absurd trivial speaks
  | has =>
      obtain ⟨passed, head, between, leads, same, parallel, speaks⟩ := alike.leads id
      cases parallel with
      | has later =>
          refine ⟨_, _, leads.trans (.goes .has .here), rfl, .task ?_, same⟩
          rw [same.heap]
          exact later _
      | right => exact absurd trivial speaks
  | @track _ reads =>
      obtain ⟨passed, head, between, leads, same, parallel, speaks⟩ := alike.leads id
      cases parallel with
      | track later =>
          refine ⟨_, _, leads.trans (.goes .track .here), rfl, .task later, same.withStore ?_⟩
          rw [Store.quiet_track, same.store, Store.quiet_track]
      | right => exact absurd trivial speaks
  | make =>
      obtain ⟨passed, head, between, leads, same, parallel, speaks⟩ := alike.leads id
      cases parallel with
      | make later =>
          obtain ⟨made, stores⟩ := same.perform _
          refine ⟨_, _, leads.trans (.goes .make .here), rfl, .task ?_, same.withStore stores⟩
          rw [made]
          exact later _
      | right => exact absurd trivial speaks
  | refuse refused =>
      obtain ⟨passed, head, between, leads, same, parallel, speaks⟩ := alike.leads id
      cases parallel with
      | write later =>
          obtain ⟨twin, written, stores⟩ := same.put refused
          exact ⟨_, _, leads.trans (.goes (.refuse written) .here), rfl, .task (later _),
            same.withStore stores⟩
      | right => exact absurd trivial speaks
  | define =>
      obtain ⟨passed, head, between, leads, same, parallel, speaks⟩ := alike.leads id
      cases parallel with
      | define bodies later =>
          obtain ⟨id, worlds⟩ := same.define bodies
          refine ⟨_, _, leads.trans (.goes .define .here), rfl, .task ?_, worlds⟩
          rw [id]
          exact later _
      | right => exact absurd trivial speaks
  | report =>
      obtain ⟨otherFrames, work, otherWorld⟩ := other
      obtain ⟨rfl, parallel, worlds⟩ := alike
      cases parallel with
      | task parallel =>
          exact ⟨[], _, .here, rfl, .task (parallel.of_report rfl), worlds.report _ _⟩
  | drain =>
      obtain ⟨passed, head, between, leads, same, parallel, speaks⟩ := alike.leads id
      cases parallel with
      | drain later =>
          refine ⟨_, _, leads.trans (.goes .drain .here), rfl, .task (later _ _), ?_⟩
          exact same.modifyTracker _ Tracker.dropErrors fun _ => rfl
      | right => exact absurd trivial speaks
  | survey =>
      obtain ⟨passed, head, between, leads, same, parallel, speaks⟩ := alike.leads id
      cases parallel with
      | survey later =>
          refine ⟨_, _, leads.trans (.goes .survey .here), rfl, .task ?_, same⟩
          rw [same.surroundings]
          exact later _
      | right => exact absurd trivial speaks
  | alter =>
      obtain ⟨passed, head, between, leads, same, parallel, speaks⟩ := alike.leads id
      cases parallel with
      | alter later =>
          refine ⟨_, _, leads.trans (.goes .alter .here), rfl, .task later, same.store, ?_,
            same.size, same.bodies⟩
          rw [same.surroundings]
      | right => exact absurd trivial speaks

/-- What one point calls is matched by what the other one comes to call. -/
theorem Calls.parallel {ends : EndRelation} {point callee other : Point σ}
    {resume : Except Fault Value → World σ → Point σ} (calls : point.Calls callee resume)
    (alike : point.Alike ends other) :
    ∃ passed final calleeTwin resumeTwin inside, other.Leads passed final ∧
      final.Calls calleeTwin resumeTwin ∧ final.attempted? = point.attempted? ∧
      callee.Alike inside calleeTwin ∧
      ∀ outcome twin between betweenTwin, inside outcome twin → between.Alike betweenTwin →
        (resume outcome between).Alike ends (resumeTwin twin betweenTwin) := by
  cases calls with
  | write accepted =>
      obtain ⟨passed, head, between, leads, same, parallel, speaks⟩ := alike.leads id
      cases parallel with
      | write later =>
          obtain ⟨twin, written, stores⟩ := same.put accepted
          exact ⟨_, _, _, _, fun _ _ => True, leads, .write written, rfl,
            ⟨rfl, .tell fun _ _ => trivial, same.withStore stores⟩,
            fun _ _ _ _ _ worlds => ⟨rfl, .task (later _), worlds⟩⟩
      | right => exact absurd trivial speaks
  | pop =>
      obtain ⟨passed, head, between, leads, same, parallel, speaks⟩ := alike.leads id
      cases parallel with
      | pop later =>
          obtain ⟨value, changed, stores⟩ := same.takeLast _
          refine ⟨_, _, _, _, fun _ _ => True, leads, .pop, rfl, ⟨rfl, ?_, same.withStore stores⟩,
            fun _ _ _ _ _ worlds => ⟨rfl, .task ?_, worlds⟩⟩
          · rw [changed]
            exact .tell fun _ _ => trivial
          · rw [value]
            exact later _
      | right => exact absurd trivial speaks
  | run =>
      obtain ⟨passed, head, between, leads, same, parallel, speaks⟩ := alike.leads id
      cases parallel with
      | run later =>
          exact ⟨_, _, _, _, fun _ _ => True, leads, .run, rfl,
            ⟨rfl, .attempt fun _ _ => trivial, same⟩,
            fun _ _ _ _ _ worlds => ⟨rfl, .task (later _ _), worlds⟩⟩
      | right => exact absurd trivial speaks
  | untracked =>
      obtain ⟨passed, head, between, leads, same, parallel, speaks⟩ := alike.leads id
      cases parallel with
      | untracked blocks later =>
          exact ⟨_, _, _, _, _, leads, .untracked, rfl, ⟨rfl, .task blocks, same.enter _ none⟩,
            fun _ _ _ _ related worlds => ⟨rfl, .task (later _ _ related), worlds.leave _⟩⟩
      | right => exact absurd trivial speaks
  | @begin _ tracker effect _ free =>
      obtain ⟨frames, work, world⟩ := other
      obtain ⟨rfl, parallel, same⟩ := alike
      cases parallel with
      | attempt any =>
          exact ⟨[], _, _, _, fun _ _ => True, .here, .begin (same.refusal? _ _ ▸ free),
            attempted?_eq same,
            ⟨rfl, .task (same.bodies effect), same.begin tracker effect⟩,
            fun _ _ _ _ _ worlds => ⟨rfl, .task (.done (any _ _)), worlds.leave tracker⟩⟩
  | attempts =>
      obtain ⟨frames, work, world⟩ := other
      obtain ⟨rfl, parallel, same⟩ := alike
      cases parallel with
      | attempts any =>
          exact ⟨[], _, _, _, fun _ _ => True, .here, .attempts, rfl,
            ⟨rfl, .attempt fun _ _ => trivial, same⟩,
            fun _ _ _ _ _ worlds => ⟨rfl, .attempts any, worlds.settle _ _ _⟩⟩
  | @tell _ access rest before =>
      obtain ⟨frames, work, world⟩ := other
      obtain ⟨rfl, parallel, same⟩ := alike
      cases parallel with
      | tell any =>
          have worlds : before.Alike world := same
          have readers : Work.Parallel (σ := σ) (fun _ _ => True)
              (.attempts (before.store.heap.owner access.container)
                (before.store.dependents access))
              (.attempts (world.store.heap.owner access.container)
                (world.store.dependents access)) := by
            rw [worlds.heap, worlds.dependents access]
            exact .attempts fun _ _ => trivial
          exact ⟨[], _, _, _, fun _ _ => True, .here, .tell, rfl, ⟨rfl, readers, worlds⟩,
            fun _ _ _ _ _ later => ⟨rfl, .tell any, later⟩⟩

/-- Where one run ends, the other one comes to its end. -/
theorem Ends.parallel {ends : EndRelation} {point other : Point σ} {result : Except Fault Value}
    {after : World σ} (here : point.Ends result after) (alike : point.Alike ends other) :
    ∃ passed final twin, other.Leads passed final ∧ final.Ends twin final.world ∧
      final.attempted? = point.attempted? ∧ ends result twin ∧ after.Alike final.world := by
  cases here with
  | done =>
      obtain ⟨passed, head, between, leads, same, parallel, speaks⟩ := alike.leads id
      cases parallel with
      | done related => exact ⟨_, _, _, leads, .done, rfl, related, same⟩
      | right => exact absurd trivial speaks
  | refused refusal =>
      obtain ⟨frames, work, world⟩ := other
      obtain ⟨rfl, parallel, same⟩ := alike
      cases parallel with
      | attempt any =>
          exact ⟨[], _, _, .here, .refused (same.refusal? _ _ ▸ refusal),
            attempted?_eq same, any _ _, same⟩
  | attempted =>
      obtain ⟨frames, work, world⟩ := other
      obtain ⟨rfl, parallel, same⟩ := alike
      cases parallel with
      | attempts any => exact ⟨[], _, _, .here, .attempted, rfl, any _ _, same⟩
  | told =>
      obtain ⟨frames, work, world⟩ := other
      obtain ⟨rfl, parallel, same⟩ := alike
      cases parallel with
      | tell any => exact ⟨[], _, _, .here, .told, rfl, any _ _, same⟩

/-- Runs from points that are alike attempt the same effects in the same order, each time in the
same state, and end alike. -/
theorem Runs.parallel {ends : EndRelation} {point other : Point σ} {passed : List (Point σ)}
    {result : Except Fault Value} {after : World σ} (runs : point.Runs passed result after)
    (alike : point.Alike ends other) :
    ∃ passedTwin twin afterTwin, other.Runs passedTwin twin afterTwin ∧
      passedTwin.filterMap attempted? = passed.filterMap attempted? ∧
      ends result twin ∧ after.Alike afterTwin := by
  induction runs generalizing ends other with
  | @ends point result after here =>
      obtain ⟨before, final, twin, leads, endsTwin, same, related, worlds⟩ := here.parallel alike
      refine ⟨_, twin, _, leads.runs (.ends endsTwin), ?_, related, worlds⟩
      rw [List.filterMap_append, leads.attempted?, List.nil_append, List.filterMap_cons,
        List.filterMap_cons, same]
  | goes here _ ih =>
      obtain ⟨before, final, leads, onward⟩ := here.parallel alike
      obtain ⟨passed, twin, after, runs, same, related, worlds⟩ := ih onward
      refine ⟨_, twin, after, leads.runs runs, ?_, related, worlds⟩
      rw [List.filterMap_append, leads.attempted?, same, List.filterMap_cons, here.attempted?]
      rfl
  | calls here _ _ ihCalled ihLater =>
      obtain ⟨before, final, callee, resume, inside, leads, calls, same, called, resumes⟩ :=
        here.parallel alike
      obtain ⟨within, outcome, between, runs, attempts, related, worlds⟩ := ihCalled called
      obtain ⟨passed, twin, after, later, attemptsLater, ended, final⟩ :=
        ihLater (resumes _ _ _ _ related worlds)
      refine ⟨_, twin, after, leads.runs (.calls calls runs later), ?_, ended, final⟩
      rw [List.filterMap_append, leads.attempted?, List.nil_append, List.filterMap_cons,
        List.filterMap_append, List.filterMap_cons, List.filterMap_append, same, attempts,
        attemptsLater]

end Point

end LiveMarkup
