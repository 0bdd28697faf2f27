import Mathlib.Data.List.Chain
import LiveMarkup.Proofs.Reactive.Run

/-!
# Histories of runs

A run is taken apart into the points that it passes.  At a point some bodies of effects and some
untracked blocks have been entered and not left, something is to be done, and the world is in some
state.  A point ends the run, goes on to another point, or calls: the callee makes a run of its own,
and the caller goes on with its outcome.  A history lists all points of a run in order.  Nothing
bounds the number of points here, and what has been entered is kept beside the work, not read off
the stacks of the trackers.
-/

namespace LiveMarkup

/-- A body of an effect, or a block whose reads count for no effect, that has been entered. -/
structure Frame where
  /-- The tracker that follows it. -/
  tracker : TrackerId
  /-- The effect whose body it is. -/
  effect : Option EffectId
  deriving DecidableEq

/-- What is to be done at a point of a run. -/
inductive Work (σ : Type) where
  /-- A task is to run. -/
  | task (task : Task σ)
  /-- An effect is to run, unless its tracker refuses it. -/
  | attempt (tracker : TrackerId) (effect : EffectId)
  /-- Effects are to run one after another, and their faults are to be reported. -/
  | attempts (tracker : TrackerId) (effects : List EffectId)
  /-- The readers of some properties are to run. -/
  | tell (changed : List Access)

/-- A point of a run. -/
structure Point (σ : Type) where
  /-- What has been entered, innermost first. -/
  frames : List Frame
  /-- What is to be done. -/
  work : Work σ
  /-- The state of the world. -/
  world : World σ

namespace World

variable {σ : Type}

/-- Reports the fault of an effect that was run for a write. -/
def settle (tracker : TrackerId) (outcome : Except Fault Value) (world : World σ) : World σ :=
  match outcome with
  | .ok _ => world
  | .error fault => world.mapStore fun store => store.report tracker fault

theorem settle_extends (world : World σ) (tracker : TrackerId) (outcome : Except Fault Value) :
    world.Extends (world.settle tracker outcome) := by
  cases outcome with
  | ok value => exact .refl world
  | error fault => exact report_extends world tracker fault

end World

namespace Point

open World

variable {σ : Type}

/-- Whether a run ends at a point, and how. -/
inductive Ends : Point σ → Except Fault Value → World σ → Prop
  /-- The task is done. -/
  | done {frames : List Frame} {result : Except Fault Value} {world : World σ} :
      Ends ⟨frames, .task (.done result), world⟩ result world
  /-- The effect is refused. -/
  | refused {frames : List Frame} {tracker : TrackerId} {effect : EffectId} {world : World σ}
      {fault : ReactiveFault} (refusal : world.refusal? tracker effect = some fault) :
      Ends ⟨frames, .attempt tracker effect, world⟩ (.error (.reactive fault)) world
  /-- No effect is left. -/
  | attempted {frames : List Frame} {tracker : TrackerId} {world : World σ} :
      Ends ⟨frames, .attempts tracker [], world⟩ (.ok .undefined) world
  /-- No property is left. -/
  | told {frames : List Frame} {world : World σ} :
      Ends ⟨frames, .tell [], world⟩ (.ok .undefined) world

/-- Whether a point goes on to another one without running any effect. -/
inductive Goes : Point σ → Point σ → Prop
  /-- The state is looked at. -/
  | look {frames : List Frame} {next : Store → Task σ} {world : World σ} :
      Goes ⟨frames, .task (.look next), world⟩ ⟨frames, .task (next world.store), world⟩
  /-- A property is looked for. -/
  | has {frames : List Frame} {target : ContainerId} {key : Key} {next : Bool → Task σ}
      {world : World σ} :
      Goes ⟨frames, .task (.has target key next), world⟩
        ⟨frames, .task (next (world.store.heap.contains target key)), world⟩
  /-- Reads are counted. -/
  | track {frames : List Frame} {reads : Array Access} {next : Task σ} {world : World σ} :
      Goes ⟨frames, .task (.track reads next), world⟩
        ⟨frames, .task next, world.mapStore fun store => store.track reads⟩
  /-- Something is made. -/
  | make {frames : List Frame} {request : Request} {next : Value → Task σ} {world : World σ} :
      Goes ⟨frames, .task (.make request next), world⟩
        ⟨frames, .task (next (world.store.perform request).1),
          { world with store := (world.store.perform request).2 }⟩
  /-- A write is refused. -/
  | refuse {frames : List Frame} {target : ContainerId} {key : Key} {value : Value}
      {next : Except ReactiveFault Unit → Task σ} {world : World σ} {fault : ReactiveFault}
      {store : Store} (refused : world.store.put target key value = (.error fault, store)) :
      Goes ⟨frames, .task (.write target key value next), world⟩
        ⟨frames, .task (next (.error fault)), { world with store := store }⟩
  /-- An effect gets its body. -/
  | define {frames : List Frame} {body : Task σ} {next : EffectId → Task σ} {world : World σ} :
      Goes ⟨frames, .task (.define body next), world⟩
        ⟨frames, .task (next (world.define body).1), (world.define body).2⟩
  /-- A fault is reported. -/
  | report {frames : List Frame} {tracker : TrackerId} {fault : Fault} {next : Task σ}
      {world : World σ} :
      Goes ⟨frames, .task (.report tracker fault next), world⟩
        ⟨frames, .task next, world.mapStore fun store => store.report tracker fault⟩
  /-- Faults are taken. -/
  | drain {frames : List Frame} {tracker : TrackerId} {next : List Fault → Task σ}
      {world : World σ} :
      Goes ⟨frames, .task (.drain tracker next), world⟩
        ⟨frames, .task (next (world.drain tracker).1), (world.drain tracker).2⟩
  /-- The surroundings are looked at. -/
  | survey {frames : List Frame} {next : σ → Task σ} {world : World σ} :
      Goes ⟨frames, .task (.survey next), world⟩
        ⟨frames, .task (next world.surroundings), world⟩
  /-- The surroundings are changed. -/
  | alter {frames : List Frame} {change : σ → σ} {next : Task σ} {world : World σ} :
      Goes ⟨frames, .task (.alter change next), world⟩
        ⟨frames, .task next, { world with surroundings := change world.surroundings }⟩

/-- Whether a point calls another one, and how it goes on with the outcome. -/
inductive Calls : Point σ → Point σ → (Except Fault Value → World σ → Point σ) → Prop
  /-- A write is stored, and the readers of what has changed run. -/
  | write {frames : List Frame} {target : ContainerId} {key : Key} {value : Value}
      {next : Except ReactiveFault Unit → Task σ} {world : World σ} {changed : List Access}
      {store : Store} (accepted : world.store.put target key value = (.ok changed, store)) :
      Calls ⟨frames, .task (.write target key value next), world⟩
        ⟨frames, .tell changed, { world with store := store }⟩
        fun _ after => ⟨frames, .task (next (.ok ())), after⟩
  /-- The last item of an array is removed, and the readers of what has changed run. -/
  | pop {frames : List Frame} {target : ContainerId} {next : Value → Task σ} {world : World σ} :
      Calls ⟨frames, .task (.pop target next), world⟩
        ⟨frames, .tell (world.store.takeLast target).2.1,
          { world with store := (world.store.takeLast target).2.2 }⟩
        fun _ after => ⟨frames, .task (next (world.store.takeLast target).1), after⟩
  /-- An effect is run. -/
  | run {frames : List Frame} {tracker : TrackerId} {effect : EffectId}
      {next : Except Fault Unit → Task σ} {world : World σ} :
      Calls ⟨frames, .task (.run tracker effect next), world⟩
        ⟨frames, .attempt tracker effect, world⟩
        fun outcome after => ⟨frames, .task (next (outcome.map fun _ => ())), after⟩
  /-- A block is entered in which reads count for no effect. -/
  | untracked {frames : List Frame} {tracker : TrackerId} {block : Task σ}
      {next : Except Fault Value → Task σ} {world : World σ} :
      Calls ⟨frames, .task (.untracked tracker block next), world⟩
        ⟨⟨tracker, none⟩ :: frames, .task block, world.enter tracker none⟩
        fun outcome after => ⟨frames, .task (next outcome), after.leave tracker⟩
  /-- The body of an effect is entered. -/
  | begin {frames : List Frame} {tracker : TrackerId} {effect : EffectId} {world : World σ}
      (free : world.refusal? tracker effect = none) :
      Calls ⟨frames, .attempt tracker effect, world⟩
        ⟨⟨tracker, some effect⟩ :: frames, .task (world.body effect), world.begin tracker effect⟩
        fun outcome after => ⟨frames, .task (.done outcome), after.leave tracker⟩
  /-- The first one of several effects is run. -/
  | attempts {frames : List Frame} {tracker : TrackerId} {effect : EffectId}
      {rest : List EffectId} {world : World σ} :
      Calls ⟨frames, .attempts tracker (effect :: rest), world⟩
        ⟨frames, .attempt tracker effect, world⟩
        fun outcome after => ⟨frames, .attempts tracker rest, after.settle tracker outcome⟩
  /-- The readers of the first one of several properties run. -/
  | tell {frames : List Frame} {access : Access} {rest : List Access} {world : World σ} :
      Calls ⟨frames, .tell (access :: rest), world⟩
        ⟨frames, .attempts (world.store.heap.owner access.container)
          (world.store.dependents access), world⟩
        fun _ after => ⟨frames, .tell rest, after⟩

/-- Whether a run from a point passes some points, that one first, and ends in a world. -/
inductive Runs : Point σ → List (Point σ) → Except Fault Value → World σ → Prop
  /-- The run ends at once. -/
  | ends {point : Point σ} {result : Except Fault Value} {after : World σ}
      (ends : point.Ends result after) : Runs point [point] result after
  /-- The run goes on. -/
  | goes {point next : Point σ} {passed : List (Point σ)} {result : Except Fault Value}
      {after : World σ} (goes : point.Goes next) (later : Runs next passed result after) :
      Runs point (point :: passed) result after
  /-- The run calls another one and goes on with its outcome. -/
  | calls {point callee : Point σ} {resume : Except Fault Value → World σ → Point σ}
      {inside passed : List (Point σ)} {outcome result : Except Fault Value}
      {between after : World σ} (calls : point.Calls callee resume)
      (called : Runs callee inside outcome between)
      (later : Runs (resume outcome between) passed result after) :
      Runs point (point :: (inside ++ passed)) result after

/-! ## One history -/

theorem Goes.unique {point first second : Point σ} (goes : point.Goes first)
    (again : point.Goes second) : second = first := by
  cases goes <;> cases again <;> simp_all

theorem Calls.unique {point first second : Point σ}
    {resume other : Except Fault Value → World σ → Point σ} (calls : point.Calls first resume)
    (again : point.Calls second other) : second = first ∧ other = resume := by
  cases calls <;> cases again <;> simp_all

theorem Ends.unique {point : Point σ} {result other : Except Fault Value}
    {after otherAfter : World σ} (ends : point.Ends result after)
    (again : point.Ends other otherAfter) : other = result ∧ otherAfter = after := by
  cases ends <;> cases again <;> simp_all

theorem Ends.not_goes {point next : Point σ} {result : Except Fault Value} {after : World σ}
    (ends : point.Ends result after) : ¬point.Goes next := by
  intro goes
  cases ends <;> cases goes

theorem Ends.not_calls {point callee : Point σ} {result : Except Fault Value} {after : World σ}
    {resume : Except Fault Value → World σ → Point σ} (ends : point.Ends result after) :
    ¬point.Calls callee resume := by
  intro calls
  cases ends <;> cases calls
  simp_all

theorem Goes.not_calls {point next callee : Point σ}
    {resume : Except Fault Value → World σ → Point σ} (goes : point.Goes next) :
    ¬point.Calls callee resume := by
  intro calls
  cases goes <;> cases calls
  simp_all

/-- A point has one run. -/
theorem Runs.unique {point : Point σ} {passed otherPassed : List (Point σ)}
    {result other : Except Fault Value} {after otherAfter : World σ}
    (runs : point.Runs passed result after) (again : point.Runs otherPassed other otherAfter) :
    otherPassed = passed ∧ other = result ∧ otherAfter = after := by
  induction runs generalizing otherPassed other otherAfter with
  | ends ends =>
      cases again with
      | ends again => exact ⟨rfl, ends.unique again⟩
      | goes goes _ => exact absurd goes ends.not_goes
      | calls calls _ _ => exact absurd calls ends.not_calls
  | goes goes _ ih =>
      cases again with
      | ends ends => exact absurd goes ends.not_goes
      | goes goes' later =>
          obtain rfl := goes.unique goes'
          obtain ⟨rfl, rfl, rfl⟩ := ih later
          exact ⟨rfl, rfl, rfl⟩
      | calls calls _ _ => exact absurd calls goes.not_calls
  | calls calls _ _ ihCalled ihLater =>
      cases again with
      | ends ends => exact absurd calls ends.not_calls
      | goes goes _ => exact absurd calls goes.not_calls
      | calls calls' called later =>
          obtain ⟨rfl, rfl⟩ := calls.unique calls'
          obtain ⟨rfl, rfl, rfl⟩ := ihCalled called
          obtain ⟨rfl, rfl, rfl⟩ := ihLater later
          exact ⟨rfl, rfl, rfl⟩

/-! ## What runs keep -/

theorem Ends.world_eq {point : Point σ} {result : Except Fault Value} {after : World σ}
    (ends : point.Ends result after) : after = point.world := by
  cases ends <;> rfl

theorem Goes.frames_eq {point next : Point σ} (goes : point.Goes next) :
    next.frames = point.frames := by
  cases goes <;> rfl

theorem Calls.frames_eq {point callee : Point σ} {resume : Except Fault Value → World σ → Point σ}
    (calls : point.Calls callee resume) (outcome : Except Fault Value) (between : World σ) :
    (resume outcome between).frames = point.frames := by
  cases calls <;> rfl

theorem Goes.extends_ {point next : Point σ} (goes : point.Goes next) :
    point.world.Extends next.world := by
  cases goes with
  | look | has | survey => exact .refl _
  | @track _ reads _ world =>
      have tracked : world.Extends (world.mapStore fun store => store.track reads) :=
        .mapStore (Store.grows_track _ reads) (Store.stack_tracker_track _ reads)
      exact tracked
  | make => exact ⟨Store.grows_perform _ _, fun _ => rfl, Nat.le_refl _, fun _ _ => rfl⟩
  | @refuse _ target key value _ world _ _ refused =>
      obtain ⟨grows, stack⟩ := Store.put_grows world.store target key value
      rw [refused] at grows stack
      exact ⟨grows, stack, Nat.le_refl _, fun _ _ => rfl⟩
  | define => exact define_extends _ _
  | report => exact report_extends _ _ _
  | drain =>
      exact ⟨.modifyTracker _ _ (fun _ => rfl) fun _ _ _ member => member,
        Store.tracker_modifyTracker_eq Tracker.stack Tracker.dropErrors fun _ => rfl,
        Nat.le_refl _, fun _ _ => rfl⟩
  | alter => exact ⟨.refl _, fun _ => rfl, Nat.le_refl _, fun _ _ => rfl⟩

/-- What is entered for a call is left before the caller goes on. -/
theorem Calls.extends_ {point callee : Point σ}
    {resume : Except Fault Value → World σ → Point σ} (calls : point.Calls callee resume)
    {between : World σ} (inside : callee.world.Extends between) (outcome : Except Fault Value) :
    point.world.Extends (resume outcome between).world := by
  cases calls with
  | @write _ target key value _ world _ _ accepted =>
      obtain ⟨grows, stack⟩ := Store.put_grows world.store target key value
      rw [accepted] at grows stack
      have stored : world.Extends { world with store := _ } :=
        ⟨grows, stack, Nat.le_refl _, fun _ _ => rfl⟩
      exact stored.trans inside
  | @pop _ target _ world =>
      obtain ⟨grows, stack⟩ := Store.takeLast_grows world.store target
      have stored : world.Extends { world with store := (world.store.takeLast target).2.2 } :=
        ⟨grows, stack, Nat.le_refl _, fun _ _ => rfl⟩
      exact stored.trans inside
  | run => exact inside
  | untracked => exact .within (enter_grows _ _ none) rfl (fun _ => rfl) inside
  | begin => exact .within (begin_grows _ _ _) rfl (fun _ => rfl) inside
  | attempts => exact inside.trans (settle_extends between _ outcome)
  | tell => exact inside

theorem Calls.grows {point callee : Point σ} {resume : Except Fault Value → World σ → Point σ}
    (calls : point.Calls callee resume) : point.world.store.Grows callee.world.store := by
  have extends_ := calls.extends_ (.refl _) (.ok .undefined)
  cases calls with
  | untracked => exact enter_grows _ _ _
  | begin => exact begin_grows _ _ _
  | _ => exact extends_.store

/-- Every run loses nothing and leaves the frames of all trackers. -/
theorem Runs.extends_ {point : Point σ} {passed : List (Point σ)} {result : Except Fault Value}
    {after : World σ} (runs : point.Runs passed result after) : point.world.Extends after := by
  induction runs with
  | ends ends => exact ends.world_eq ▸ .refl _
  | goes goes _ ih => exact goes.extends_.trans ih
  | calls calls _ _ ihCalled ihLater => exact (calls.extends_ ihCalled _).trans ihLater

/-- What every step keeps holds at all points of a run.  A caller goes on in a world that extends
the one it has called in, with an outcome and in a world for which what holds at the end of runs
holds. -/
theorem Runs.keeps_outcome (holds : Point σ → Prop) (final : Except Fault Value → World σ → Prop)
    (ends : ∀ {point : Point σ} {result after}, point.Ends result after → holds point →
      final result after)
    (goes : ∀ {point next : Point σ}, point.Goes next → holds point → holds next)
    (calls : ∀ {point callee : Point σ} {resume}, point.Calls callee resume → holds point →
      holds callee)
    (resumes : ∀ {point callee : Point σ} {resume outcome between}, point.Calls callee resume →
      holds point → callee.world.Extends between → final outcome between →
        holds (resume outcome between))
    {point : Point σ} {passed : List (Point σ)} {result : Except Fault Value} {after : World σ}
    (runs : point.Runs passed result after) (start : holds point) :
    (∀ inner ∈ passed, holds inner) ∧ final result after := by
  induction runs with
  | ends here =>
      exact ⟨fun inner member => List.mem_singleton.mp member ▸ start, ends here start⟩
  | goes here _ ih =>
      obtain ⟨all, last⟩ := ih (goes here start)
      exact ⟨List.forall_mem_cons.mpr ⟨start, all⟩, last⟩
  | calls here called _ ihCalled ihLater =>
      obtain ⟨inside, between⟩ := ihCalled (calls here start)
      obtain ⟨all, last⟩ := ihLater (resumes here start called.extends_ between)
      refine ⟨List.forall_mem_cons.mpr ⟨start, fun inner member => ?_⟩, last⟩
      exact (List.mem_append.mp member).elim (inside inner) (all inner)

theorem Runs.keeps (holds : Point σ → Prop) (final : World σ → Prop)
    (ends : ∀ {point : Point σ} {result after}, point.Ends result after → holds point → final after)
    (goes : ∀ {point next : Point σ}, point.Goes next → holds point → holds next)
    (calls : ∀ {point callee : Point σ} {resume}, point.Calls callee resume → holds point →
      holds callee)
    (resumes : ∀ {point callee : Point σ} {resume outcome between}, point.Calls callee resume →
      holds point → callee.world.Extends between → final between → holds (resume outcome between))
    {point : Point σ} {passed : List (Point σ)} {result : Except Fault Value} {after : World σ}
    (runs : point.Runs passed result after) (start : holds point) :
    (∀ inner ∈ passed, holds inner) ∧ final after :=
  runs.keeps_outcome holds (fun _ => final) ends goes calls resumes start

theorem Runs.eq_cons {point : Point σ} {passed : List (Point σ)} {result : Except Fault Value}
    {after : World σ} (runs : point.Runs passed result after) : ∃ rest, passed = point :: rest := by
  cases runs <;> exact ⟨_, rfl⟩

/-- What every step brings about holds between each point of a run and the next one, and between the
last one and the world in the end. -/
theorem Runs.steps (brings : Point σ → World σ → Prop)
    (ends : ∀ {point : Point σ} {result after}, point.Ends result after → brings point after)
    (goes : ∀ {point next : Point σ}, point.Goes next → brings point next.world)
    (calls : ∀ {point callee : Point σ} {resume}, point.Calls callee resume →
      brings point callee.world)
    (resumes : ∀ {point callee last : Point σ} {resume outcome between},
      point.Calls callee resume → brings last between → brings last (resume outcome between).world)
    {point : Point σ} {passed : List (Point σ)} {result : Except Fault Value} {after : World σ}
    (runs : point.Runs passed result after) :
    passed.IsChain (fun earlier later => brings earlier later.world) ∧
      ∀ last ∈ passed.getLast?, brings last after := by
  induction runs with
  | @ends point result after here =>
      refine ⟨List.isChain_singleton point, fun last final => ?_⟩
      obtain rfl := Option.some.inj final
      exact ends here
  | goes here later ih =>
      obtain ⟨rest, rfl⟩ := later.eq_cons
      refine ⟨List.isChain_cons_cons.mpr ⟨goes here, ih.1⟩, fun last final => ih.2 last ?_⟩
      rwa [List.getLast?_cons_cons] at final
  | @calls point callee resume inside passed outcome result between after here called later
      ihCalled ihLater =>
      obtain ⟨rest, rfl⟩ := called.eq_cons
      obtain ⟨onward, rfl⟩ := later.eq_cons
      have joined : (callee :: rest ++ resume outcome between :: onward).IsChain
          fun earlier later => brings earlier later.world := by
        refine ihCalled.1.append ihLater.1 fun last final next first => ?_
        obtain rfl := Option.some.inj first
        exact resumes here (ihCalled.2 last final)
      refine ⟨List.isChain_cons_cons.mpr ⟨calls here, joined⟩, ?_⟩
      rw [← List.cons_append, List.getLast?_append_cons]
      exact ihLater.2

/-- At no point of a run anything has been lost. -/
theorem Runs.grows {point : Point σ} {passed : List (Point σ)} {result : Except Fault Value}
    {after : World σ} (runs : point.Runs passed result after) :
    ∀ inner ∈ passed, point.world.store.Grows inner.world.store :=
  (runs.keeps (fun inner => point.world.store.Grows inner.world.store) (fun _ => True)
    (fun _ _ => trivial) (fun goes grown => grown.trans goes.extends_.store)
    (fun calls grown => grown.trans calls.grows)
    (fun calls grown inside _ => grown.trans (calls.extends_ inside _).store) (.refl _)).1

end Point

end LiveMarkup
