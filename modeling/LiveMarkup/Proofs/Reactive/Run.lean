import LiveMarkup.Proofs.Reactive.Write
import LiveMarkup.Reactive.Engine

/-!
# What every run keeps

Whatever a task does, and whatever effects its writes run, the frames of every tracker are in the
end what they were, no subscription is lost, containers keep their tracker and their kind, and
effects keep their bodies.  The statements are first about one step and then, by induction on the
task and on the bound of nested effects, about whole runs.
-/

namespace LiveMarkup

namespace Store

/-- How often an effect has run. -/
def runCount (store : Store) (effect : EffectId) : Nat := store.runs[effect.index]?.getD 0

/-- Whether an effect has been defined. -/
def HasEffect (store : Store) (effect : EffectId) : Prop := effect.index < store.runs.size

instance (store : Store) (effect : EffectId) : Decidable (store.HasEffect effect) :=
  inferInstanceAs (Decidable (effect.index < store.runs.size))

/-- Nothing is lost but perhaps frames and faults. -/
structure Grows (before after : Store) : Prop where
  /-- Containers stay. -/
  heap : before.heap.Keeps after.heap
  /-- There are the same trackers. -/
  trackers : after.trackers.size = before.trackers.size
  /-- Trackers keep their configurations. -/
  config : ∀ id, (after.tracker id).config = (before.tracker id).config
  /-- Trackers keep their subscriptions. -/
  dependents : ∀ id access, ∀ effect ∈ (before.tracker id).dependents access,
    effect ∈ (after.tracker id).dependents access
  /-- Effects stay defined. -/
  runs_size : before.runs.size ≤ after.runs.size
  /-- No run is uncounted. -/
  runCount : ∀ effect, before.runCount effect ≤ after.runCount effect

theorem Grows.refl (store : Store) : store.Grows store :=
  ⟨.refl _, rfl, fun _ => rfl, fun _ _ _ member => member, Nat.le_refl _, fun _ => Nat.le_refl _⟩

theorem Grows.trans {first second third : Store} (before : first.Grows second)
    (after : second.Grows third) : first.Grows third where
  heap := before.heap.trans after.heap
  trackers := after.trackers.trans before.trackers
  config id := (after.config id).trans (before.config id)
  dependents id access effect member :=
    after.dependents id access effect (before.dependents id access effect member)
  runs_size := Nat.le_trans before.runs_size after.runs_size
  runCount effect := Nat.le_trans (before.runCount effect) (after.runCount effect)

theorem Grows.of_heap {store : Store} {heap : Heap} (keeps : store.heap.Keeps heap) :
    store.Grows { store with heap := heap } :=
  ⟨keeps, rfl, fun _ => rfl, fun _ _ _ member => member, Nat.le_refl _, fun _ => Nat.le_refl _⟩

/-- A change of a tracker that keeps its configuration and its subscriptions loses nothing. -/
theorem Grows.modifyTracker (store : Store) (id : TrackerId) {change : Tracker → Tracker}
    (config : ∀ tracker, (change tracker).config = tracker.config)
    (dependents : ∀ tracker access effect, effect ∈ Tracker.dependents tracker access →
      effect ∈ (change tracker).dependents access) :
    store.Grows (store.modifyTracker id change) where
  heap := .refl _
  trackers := size_modifyTracker store id change
  config other := tracker_modifyTracker_eq Tracker.config change config other
  dependents other access effect member := by
    rw [tracker_modifyTracker]
    split
    · exact dependents _ access effect member
    · exact member
  runs_size := Nat.le_refl _
  runCount _ := Nat.le_refl _

theorem grows_trackOne (store : Store) (access : Access) : store.Grows (store.trackOne access) :=
  .modifyTracker store _ (fun tracker => Tracker.config_track tracker access)
    fun _ _ _ member => Tracker.mem_dependents_track.mpr (.inl member)

theorem grows_track (store : Store) (reads : Array Access) : store.Grows (store.track reads) := by
  rw [track_eq_foldl]
  induction reads.toList generalizing store with
  | nil => exact .refl store
  | cons access rest ih => exact (grows_trackOne store access).trans (ih _)

theorem grows_report (store : Store) (id : TrackerId) (fault : Fault) :
    store.Grows (store.report id fault) :=
  .modifyTracker store id (fun _ => rfl) fun _ _ _ member => member

theorem stack_report (store : Store) (id : TrackerId) (fault : Fault) (other : TrackerId) :
    ((store.report id fault).tracker other).stack = (store.tracker other).stack :=
  tracker_modifyTracker_eq Tracker.stack (fun tracker => tracker.report fault) (fun _ => rfl) other

theorem grows_setContents {store : Store} {id : ContainerId} {contents : Contents}
    (kind : contents.isArray = store.heap.isArray id) :
    store.Grows (store.setContents id contents) :=
  .of_heap (Heap.setContents_keeps kind)

theorem grows_perform (store : Store) (request : Request) :
    store.Grows (store.perform request).2 :=
  .of_heap (Heap.perform_allocates request store.heap).keeps

/-- A write, taken or refused, loses nothing and leaves the frames. -/
theorem put_grows (store : Store) (id : ContainerId) (key : Key) (value : Value) :
    store.Grows (store.put id key value).2 ∧
      ∀ other, ((store.put id key value).2.tracker other).stack = (store.tracker other).stack := by
  have adopts := Heap.adopt_allocates (store.heap.owner id) value store.heap
  obtain ⟨taken, heap, reads, adoption, ⟨fault, refused⟩ | ⟨contents, written, stored⟩⟩ :=
    put_cases store id key value
  all_goals
    rw [adoption] at adopts
    have tracked : store.Grows ({ store with heap := heap }.track reads) :=
      (Grows.of_heap adopts.keeps).trans (grows_track { store with heap := heap } reads)
  · rw [refused]
    exact ⟨tracked, stack_tracker_track { store with heap := heap } reads⟩
  · have kind : contents.isArray = ({ store with heap := heap }.track reads).heap.isArray id := by
      rw [heap_track]
      exact written.isArray
    rw [stored]
    exact ⟨tracked.trans (grows_setContents kind),
      stack_tracker_track { store with heap := heap } reads⟩

theorem takeLast_grows (store : Store) (id : ContainerId) :
    store.Grows (store.takeLast id).2.2 ∧
      ∀ other, ((store.takeLast id).2.2.tracker other).stack = (store.tracker other).stack := by
  rcases takeLast_cases store id with nothing | ⟨position, last, rest, popped, taken⟩
  · rw [nothing]
    exact ⟨.refl store, fun _ => rfl⟩
  · rw [taken]
    exact ⟨grows_setContents (isArray_pop popped), fun _ => rfl⟩

end Store

namespace World

variable {σ : Type}

/-- A run has lost nothing: the store has only grown, the frames are the same, and effects have
their bodies. -/
structure Extends (before after : World σ) : Prop where
  /-- The store has only grown. -/
  store : before.store.Grows after.store
  /-- Every tracker has its frames. -/
  stack : ∀ id, (after.store.tracker id).stack = (before.store.tracker id).stack
  /-- Bodies are only added. -/
  bodies_size : before.bodies.size ≤ after.bodies.size
  /-- Every effect has its body. -/
  bodies : ∀ index, index < before.bodies.size → after.bodies[index]? = before.bodies[index]?

theorem Extends.refl (world : World σ) : world.Extends world :=
  ⟨.refl _, fun _ => rfl, Nat.le_refl _, fun _ _ => rfl⟩

theorem Extends.trans {first second third : World σ} (before : first.Extends second)
    (after : second.Extends third) : first.Extends third where
  store := before.store.trans after.store
  stack id := (after.stack id).trans (before.stack id)
  bodies_size := Nat.le_trans before.bodies_size after.bodies_size
  bodies index known :=
    (after.bodies index (Nat.lt_of_lt_of_le known before.bodies_size)).trans
      (before.bodies index known)

theorem Extends.mapStore {world : World σ} {change : Store → Store}
    (grows : world.store.Grows (change world.store))
    (stack : ∀ id, ((change world.store).tracker id).stack = (world.store.tracker id).stack) :
    world.Extends (world.mapStore change) :=
  ⟨grows, stack, Nat.le_refl _, fun _ _ => rfl⟩

/-- A way to run effects under which a run loses nothing. -/
def Runner.Extends (runner : Runner σ) : Prop :=
  ∀ tracker effect world, World.Extends world (runner tracker effect world).2

theorem report_extends (world : World σ) (tracker : TrackerId) (fault : Fault) :
    world.Extends (world.mapStore fun store => store.report tracker fault) :=
  .mapStore (Store.grows_report _ tracker fault) (Store.stack_report _ tracker fault)

section Runner

variable {runner : Runner σ}

theorem fanOut_extends (extends_ : runner.Extends) (tracker : TrackerId)
    (effects : List EffectId) (world : World σ) :
    world.Extends (world.fanOut runner tracker effects) := by
  induction effects generalizing world with
  | nil => exact .refl world
  | cons effect rest ih =>
      have ran := extends_ tracker effect world
      rw [fanOut, List.foldl_cons]
      split
      next after result =>
        rw [result] at ran
        exact ran.trans (ih after)
      next fault after result =>
        rw [result] at ran
        exact (ran.trans (report_extends after tracker fault)).trans (ih _)

theorem trigger_extends (extends_ : runner.Extends) (world : World σ) (access : Access) :
    world.Extends (world.trigger runner access) :=
  fanOut_extends extends_ _ _ world

theorem triggerAll_extends (extends_ : runner.Extends) (changed : List Access) (world : World σ) :
    world.Extends (changed.foldl (trigger runner) world) := by
  induction changed generalizing world with
  | nil => exact .refl world
  | cons access rest ih => exact (trigger_extends extends_ world access).trans (ih _)

theorem write_extends (extends_ : runner.Extends) (id : ContainerId) (key : Key) (value : Value)
    (world : World σ) : world.Extends (world.write runner id key value).2 := by
  obtain ⟨grows, stack⟩ := Store.put_grows world.store id key value
  rw [write]
  split
  next fault store result =>
    rw [result] at grows stack
    exact ⟨grows, stack, Nat.le_refl _, fun _ _ => rfl⟩
  next changed store result =>
    rw [result] at grows stack
    have stored : world.Extends { world with store := store } :=
      ⟨grows, stack, Nat.le_refl _, fun _ _ => rfl⟩
    exact stored.trans (triggerAll_extends extends_ changed _)

theorem pop_extends (extends_ : runner.Extends) (id : ContainerId) (world : World σ) :
    world.Extends (world.pop runner id).2 := by
  obtain ⟨grows, stack⟩ := Store.takeLast_grows world.store id
  rw [pop]
  have stored : world.Extends { world with store := (world.store.takeLast id).2.2 } :=
    ⟨grows, stack, Nat.le_refl _, fun _ _ => rfl⟩
  exact stored.trans (triggerAll_extends extends_ _ _)

theorem define_extends (world : World σ) (body : Task σ) :
    world.Extends (world.define body).2 where
  store :=
    { heap := .refl _
      trackers := rfl
      config := fun _ => rfl
      dependents := fun _ _ _ member => member
      runs_size := by simp [define]
      runCount := fun effect => by
        simp only [define, Store.runCount, Array.getElem?_push]
        split
        next new => simp [new]
        next => exact Nat.le_refl _ }
  stack _ := rfl
  bodies_size := by simp [define]
  bodies index known := by
    simp only [define, Array.getElem?_push]
    rw [if_neg (Nat.ne_of_lt known)]

theorem stack_enter (world : World σ) (tracker other : TrackerId) (frame : Option EffectId) :
    ((world.enter tracker frame).store.tracker other).stack =
      if other = tracker ∧ world.store.HasTracker tracker then
        frame :: (world.store.tracker other).stack
      else (world.store.tracker other).stack := by
  rw [enter, mapStore, Store.tracker_modifyTracker]
  by_cases here : other = tracker ∧ world.store.HasTracker tracker
  · rw [if_pos here, if_pos here, Tracker.enter]
  · rw [if_neg here, if_neg here]

theorem stack_leave (world : World σ) (tracker other : TrackerId) :
    ((world.leave tracker).store.tracker other).stack =
      if other = tracker ∧ world.store.HasTracker tracker then
        (world.store.tracker other).stack.tail
      else (world.store.tracker other).stack := by
  rw [leave, mapStore, Store.tracker_modifyTracker]
  by_cases here : other = tracker ∧ world.store.HasTracker tracker
  · rw [if_pos here, if_pos here, Tracker.leave]
  · rw [if_neg here, if_neg here]

/-- What happens in a frame that is opened first and closed last loses nothing. -/
theorem Extends.within {world begun after : World σ} {tracker : TrackerId}
    {frame : Option EffectId} (grows : world.store.Grows begun.store)
    (bodies : begun.bodies = world.bodies)
    (opened : ∀ id, (begun.store.tracker id).stack =
      ((world.enter tracker frame).store.tracker id).stack)
    (inside : begun.Extends after) : world.Extends (after.leave tracker) where
  store := (grows.trans inside.store).trans
    (.modifyTracker _ tracker (fun _ => rfl) fun _ _ _ member => member)
  stack id := by
    have known : after.store.HasTracker tracker ↔ world.store.HasTracker tracker := by
      rw [Store.HasTracker, inside.store.trackers, grows.trackers, Store.HasTracker]
    rw [stack_leave, inside.stack, opened, stack_enter]
    by_cases here : id = tracker ∧ world.store.HasTracker tracker
    · rw [if_pos here, if_pos ⟨here.1, known.mpr here.2⟩, List.tail_cons]
    · rw [if_neg here, if_neg fun both => here ⟨both.1, known.mp both.2⟩]
  bodies_size := bodies ▸ inside.bodies_size
  bodies index known := bodies ▸ inside.bodies index (bodies ▸ known)

theorem enter_grows (world : World σ) (tracker : TrackerId) (frame : Option EffectId) :
    world.store.Grows (world.enter tracker frame).store :=
  .modifyTracker _ tracker (fun _ => rfl) fun _ _ _ member => member

/-- A run of a task loses nothing if the runs of effects do not. -/
theorem interpret_extends (extends_ : runner.Extends) (task : Task σ) (world : World σ) :
    world.Extends (interpret runner task world).2 := by
  induction task generalizing world with
  | done result => exact .refl world
  | look next ih => exact ih _ world
  | has target key next ih => exact ih _ world
  | track reads next ih =>
      have tracked : world.Extends (world.mapStore fun store => store.track reads) :=
        .mapStore (Store.grows_track _ reads) (Store.stack_tracker_track _ reads)
      exact tracked.trans (ih _)
  | make request next ih =>
      have made : world.Extends { world with store := (world.store.perform request).2 } :=
        ⟨Store.grows_perform _ request, fun _ => rfl, Nat.le_refl _, fun _ _ => rfl⟩
      exact made.trans (ih _ _)
  | write target key value next ih =>
      exact (write_extends extends_ target key value world).trans (ih _ _)
  | pop target next ih => exact (pop_extends extends_ target world).trans (ih _ _)
  | define body next _ ih => exact (define_extends world body).trans (ih _ _)
  | run tracker effect next ih => exact (extends_ tracker effect world).trans (ih _ _)
  | untracked tracker block next inside ih =>
      have opened : world.Extends (World.leave tracker
          (interpret runner block (world.enter tracker none)).2) :=
        .within (enter_grows world tracker none) rfl (fun _ => rfl) (inside _)
      exact opened.trans (ih _ _)
  | report tracker fault next ih => exact (report_extends world tracker fault).trans (ih _)
  | drain tracker next ih =>
      have drained : world.Extends (world.drain tracker).2 :=
        ⟨.modifyTracker _ tracker (fun _ => rfl) fun _ _ _ member => member,
          Store.tracker_modifyTracker_eq Tracker.stack Tracker.dropErrors fun _ => rfl,
          Nat.le_refl _, fun _ _ => rfl⟩
      exact drained.trans (ih _ _)
  | survey next ih => exact ih _ world
  | alter change next ih =>
      have altered : world.Extends { world with surroundings := change world.surroundings } :=
        ⟨.refl _, fun _ => rfl, Nat.le_refl _, fun _ _ => rfl⟩
      exact altered.trans (ih _)

end Runner

/-! ## Effects -/

theorem runCount_begin (world : World σ) (tracker : TrackerId) (effect other : EffectId) :
    (world.begin tracker effect).store.runCount other =
      if other = effect ∧ world.store.HasEffect effect then world.store.runCount other + 1
      else world.store.runCount other := by
  change (world.store.runs.modify effect.index (· + 1))[other.index]?.getD 0 = _
  rw [Array.getElem?_modify, Store.runCount]
  by_cases same : other = effect
  · subst same
    by_cases known : other.index < world.store.runs.size <;>
      simp [known, Store.HasEffect]
  · have differs : ¬effect.index = other.index := fun equal =>
      same (by cases effect; cases other; simp_all)
    simp [same, differs]

theorem begin_grows (world : World σ) (tracker : TrackerId) (effect : EffectId) :
    world.store.Grows (world.begin tracker effect).store where
  heap := .refl _
  trackers := (enter_grows world tracker (some effect)).trackers
  config := (enter_grows world tracker (some effect)).config
  dependents := (enter_grows world tracker (some effect)).dependents
  runs_size := by simp [begin, enter, mapStore, Store.modifyTracker]
  runCount other := by
    rw [runCount_begin]
    split
    · exact Nat.le_succ _
    · exact Nat.le_refl _

/-- Running an effect loses nothing, however many effects may be nested in it. -/
theorem runEffect_extends (bound : Nat) : Runner.Extends (runEffect (σ := σ) bound) := by
  induction bound with
  | zero =>
      intro tracker effect world
      rw [runEffect]
      split <;> exact .refl world
  | succ bound ih =>
      intro tracker effect world
      rw [runEffect]
      split
      · exact .refl world
      · exact .within (begin_grows world tracker effect) rfl (fun _ => rfl)
          (interpret_extends ih _ _)

/-- Whatever is run from the outside, nothing is lost and every tracker has its frames again. -/
theorem exec_extends (world : World σ) (computation : TaskM σ Value) :
    world.Extends (world.exec computation).2 :=
  interpret_extends (runEffect_extends _) _ world

end World

end LiveMarkup
