import LiveMarkup.Proofs.Reactive.Adequacy
import LiveMarkup.Proofs.Reactive.Notification
import LiveMarkup.Proofs.Reactive.Yield

/-!
# Nested effects

At every point of a run the stack of a tracker is what has been entered on it and not been left: the
stack mirrors the calls.  From this it follows that no body is entered while it is open, that no
more bodies are nested than the limit allows, and that every call gives the stack back as it was.
-/

namespace LiveMarkup

namespace Frame

/-- What has been entered on a tracker, innermost first. -/
def entered (frames : List Frame) (tracker : TrackerId) : List (Option EffectId) :=
  (frames.filter fun frame => frame.tracker = tracker).map Frame.effect

theorem entered_cons (frame : Frame) (frames : List Frame) (tracker : TrackerId) :
    entered (frame :: frames) tracker =
      if tracker = frame.tracker then frame.effect :: entered frames tracker
      else entered frames tracker := by
  by_cases same : frame.tracker = tracker
  · simp [entered, same]
  · simp [entered, same, Ne.symm same]

end Frame

namespace Point

open World

variable {σ : Type}

/-- The effects of a tracker whose bodies are open, innermost first. -/
def running (point : Point σ) (tracker : TrackerId) : List EffectId :=
  (Frame.entered point.frames tracker).filterMap id

/-- Whether stacks mirror what has been entered, no effect is open twice, and no more effects are
open than the limits allow. -/
structure Nested (point : Point σ) : Prop where
  /-- A stack holds what has been entered on its tracker. -/
  stack : ∀ tracker, point.world.store.HasTracker tracker →
    (point.world.store.tracker tracker).stack = Frame.entered point.frames tracker
  /-- The open effects of a tracker are distinct. -/
  distinct : ∀ tracker, point.world.store.HasTracker tracker → (point.running tracker).Nodup
  /-- A tracker has no more open effects than its limit. -/
  limited : ∀ tracker, point.world.store.HasTracker tracker →
    (point.running tracker).length ≤ (point.world.store.tracker tracker).config.maxEffectDepth

theorem Nested.of_extends {point other : Point σ} (nested : point.Nested)
    (extends_ : point.world.Extends other.world) (frames : other.frames = point.frames) :
    other.Nested := by
  have same := extends_.hasTracker
  constructor
  · intro tracker known
    rw [extends_.stack, frames]
    exact nested.stack tracker (same ▸ known)
  · intro tracker known
    rw [running, frames]
    exact nested.distinct tracker (same ▸ known)
  · intro tracker known
    rw [running, frames, extends_.store.config]
    exact nested.limited tracker (same ▸ known)

/-- What is entered comes in front.  A body may be entered if it is not open and the stack is below
the limit. -/
theorem Nested.enter {point : Point σ} (nested : point.Nested) {frame : Frame} {work : Work σ}
    {begun : World σ} (grows : point.world.store.Grows begun.store)
    (opened : ∀ id, (begun.store.tracker id).stack =
      ((point.world.enter frame.tracker frame.effect).store.tracker id).stack)
    (free : ∀ effect, frame.effect = some effect →
      effect ∉ (point.world.store.tracker frame.tracker).stack.filterMap id ∧
        (point.world.store.tracker frame.tracker).stack.length <
          (point.world.store.tracker frame.tracker).config.maxEffectDepth) :
    Nested ⟨frame :: point.frames, work, begun⟩ := by
  have same {id : TrackerId} : begun.store.HasTracker id ↔ point.world.store.HasTracker id := by
    rw [grows.hasTracker]
  have runs (id : TrackerId) : running ⟨frame :: point.frames, work, begun⟩ id =
      if id = frame.tracker then frame.effect.toList ++ point.running id else point.running id := by
    rw [running, running, Frame.entered_cons]
    split
    · cases frame.effect <;> rfl
    · rfl
  constructor
  · intro tracker known
    rw [opened, stack_enter, Frame.entered_cons, nested.stack tracker (same.mp known)]
    by_cases here : tracker = frame.tracker
    · rw [if_pos here, if_pos ⟨here, here ▸ same.mp known⟩]
    · rw [if_neg here, if_neg fun both => here both.1]
  · intro tracker known
    have distinct := nested.distinct tracker (same.mp known)
    rw [runs]
    split
    next here =>
      cases given : frame.effect with
      | none => exact distinct
      | some effect =>
          have absent := (free effect given).1
          rw [← here, nested.stack tracker (same.mp known)] at absent
          exact List.nodup_cons.mpr ⟨absent, distinct⟩
    next => exact distinct
  · intro tracker known
    have limited := nested.limited tracker (same.mp known)
    rw [runs, grows.config]
    split
    next here =>
      cases given : frame.effect with
      | none => exact limited
      | some effect =>
          have room := (free effect given).2
          rw [← here] at room
          have fewer : (point.running tracker).length ≤
              (point.world.store.tracker tracker).stack.length := by
            rw [nested.stack tracker (same.mp known)]
            exact List.length_filterMap_le _ _
          exact Nat.lt_of_le_of_lt fewer room
    next => exact limited

theorem Nested.calls {point callee : Point σ} {resume : Except Fault Value → World σ → Point σ}
    (nested : point.Nested) (calls : point.Calls callee resume) : callee.Nested := by
  have extends_ := calls.extends_ (.refl _) (.ok .undefined)
  cases calls with
  | untracked => exact nested.enter (enter_grows _ _ _) (fun _ => rfl) fun _ given => nomatch given
  | begin free =>
      refine nested.enter (begin_grows _ _ _) (fun _ => rfl) fun effect given => ?_
      exact Option.some.inj given ▸ room_of_free free
  | _ => exact nested.of_extends extends_ rfl

/-- Stacks mirror the calls at every point of a run. -/
theorem Runs.nested {point : Point σ} {passed : List (Point σ)} {result : Except Fault Value}
    {after : World σ} (runs : point.Runs passed result after) (nested : point.Nested) :
    ∀ inner ∈ passed, inner.Nested :=
  (runs.keeps Nested (fun _ => True) (fun _ _ => trivial)
    (fun goes nested => nested.of_extends goes.extends_ goes.frames_eq)
    (fun calls nested => nested.calls calls)
    (fun calls nested inside _ => nested.of_extends (calls.extends_ inside _) (calls.frames_eq _ _))
    nested).1

end Point

/-! ## How often effects run -/

namespace Store

theorem runs_put (store : Store) (id : ContainerId) (key : Key) (value : Value) :
    (store.put id key value).2.runs = store.runs := by
  obtain ⟨taken, heap, reads, -, ⟨fault, refused⟩ | ⟨contents, -, stored⟩⟩ :=
    put_cases store id key value
  · rw [refused]
    exact runs_track _ reads
  · rw [stored, setContents]
    exact runs_track _ reads

theorem runs_takeLast (store : Store) (id : ContainerId) :
    (store.takeLast id).2.2.runs = store.runs := by
  rcases takeLast_cases store id with nothing | ⟨_, _, _, _, taken⟩
  · rw [nothing]
  · rw [taken, setContents]

end Store

namespace Point

open World

variable {σ : Type}

/-- Whether the body of an effect is entered from a point. -/
def begins (effect : EffectId) (point : Point σ) : Bool :=
  match point.work with
  | .attempt tracker other =>
      other = effect && (point.world.refusal? tracker other).isNone &&
        decide (point.world.store.HasEffect other)
  | _ => false

theorem Ends.begins {point : Point σ} {result : Except Fault Value} {after : World σ}
    (ends : point.Ends result after) (effect : EffectId) : point.begins effect = false := by
  cases ends with
  | refused refusal => simp [Point.begins, refusal]
  | _ => rfl

theorem Goes.begins {point next : Point σ} (goes : point.Goes next) (effect : EffectId) :
    point.begins effect = false := by
  cases goes <;> rfl

theorem Goes.runCount {point next : Point σ} (goes : point.Goes next) (effect : EffectId) :
    next.world.store.runCount effect = point.world.store.runCount effect := by
  cases goes with
  | @track _ reads _ world =>
      change Store.runCount (world.store.track reads) effect = _
      rw [Store.runCount, Store.runs_track, Store.runCount]
  | @refuse _ target key value _ world _ _ refused =>
      have same := Store.runs_put world.store target key value
      rw [refused] at same
      exact congrArg (fun runs => runs[effect.index]?.getD 0) same
  | @define _ _ _ world =>
      change (world.store.runs.push 0)[effect.index]?.getD 0 = _
      rw [Array.getElem?_push, Store.runCount]
      split
      next new => simp [new]
      next => rfl
  | _ => rfl

theorem Calls.runCount {point callee : Point σ} {resume : Except Fault Value → World σ → Point σ}
    (calls : point.Calls callee resume) (effect : EffectId) :
    callee.world.store.runCount effect =
      point.world.store.runCount effect + (point.begins effect).toNat := by
  cases calls with
  | @write _ target key value _ world _ _ accepted =>
      have same := Store.runs_put world.store target key value
      rw [accepted] at same
      exact congrArg (fun runs => runs[effect.index]?.getD 0) same
  | @pop _ target _ world =>
      exact congrArg (fun runs => runs[effect.index]?.getD 0)
        (Store.runs_takeLast world.store target)
  | @begin _ tracker other world free =>
      rw [runCount_begin]
      by_cases same : other = effect
      · subst same
        by_cases known : world.store.HasEffect other <;> simp [Point.begins, free, known]
      · simp [Point.begins, same, Ne.symm same]
  | _ => rfl

theorem Calls.runCount_resume {point callee : Point σ}
    {resume : Except Fault Value → World σ → Point σ} (calls : point.Calls callee resume)
    (outcome : Except Fault Value) (between : World σ) (effect : EffectId) :
    (resume outcome between).world.store.runCount effect = between.store.runCount effect := by
  cases calls with
  | attempts => cases outcome <;> rfl
  | _ => rfl

/-- An effect has run as often as its body has been entered. -/
theorem Runs.runCount {point : Point σ} {passed : List (Point σ)} {result : Except Fault Value}
    {after : World σ} (runs : point.Runs passed result after) (effect : EffectId) :
    after.store.runCount effect =
      point.world.store.runCount effect + passed.countP (begins effect) := by
  induction runs with
  | ends ends => rw [ends.world_eq, List.countP_singleton, ends.begins, if_neg (by decide)]; rfl
  | goes goes _ ih =>
      rw [ih, goes.runCount, List.countP_cons, goes.begins, if_neg (by decide), Nat.add_zero]
  | @calls point callee resume inside passed outcome result between after calls _ _ ihCalled
      ihLater =>
      rw [ihLater, calls.runCount_resume, ihCalled, calls.runCount, List.countP_cons,
        List.countP_append]
      cases point.begins effect <;> simp <;> omega

end Point

/-! ## Calls -/

/-- What running code asks for by name. -/
inductive Call (σ : Type) where
  /-- A property is read. -/
  | get (target : ContainerId) (key : Key)
  /-- A container is written to. -/
  | write (target : ContainerId) (change : Write)
  /-- An effect is made and runs. -/
  | createEffect (tracker : TrackerId) (body : TaskM σ Value)
  /-- An effect runs. -/
  | runEffect (tracker : TrackerId) (effect : EffectId)
  /-- A block runs whose reads count for no effect. -/
  | untracked (tracker : TrackerId) (block : TaskM σ Value)

/-- The computation that a call is. -/
def Call.computation {σ : Type} : Call σ → TaskM σ Value
  | get target key => TaskM.watch fun heap => heap.get target key
  | write target change => change.perform target
  | createEffect tracker body => do
      let _ ← TaskM.createEffect tracker body
      return .undefined
  | runEffect tracker effect => do
      match ← TaskM.tryRun tracker effect with
      | .ok () => return .undefined
      | .error fault => TaskM.fail fault
  | untracked tracker block => TaskM.untracked tracker block

namespace TaskM

open World

variable {σ α β : Type} {runner : Runner σ} {world : World σ}

/-- Whether a computation comes back with a result, having lost nothing and with the frames of all
trackers as they were. -/
def Returns (runner : Runner σ) (computation : TaskM σ α) (world : World σ) : Prop :=
  ∃ result after, computation.Ends runner world result after ∧ world.Extends after

namespace Returns

theorem ofExcept (result : Except Fault α) : Returns runner (TaskM.ofExcept result) world :=
  ⟨result, world, .ofExcept result world, .refl world⟩

theorem pure (a : α) : Returns runner (Pure.pure a) world := ofExcept (.ok a)

theorem fail (fault : Fault) : Returns (α := α) runner (TaskM.fail fault) world :=
  ofExcept (.error fault)

theorem bind {computation : TaskM σ α} {next : α → TaskM σ β}
    (first : Returns runner computation world) (later : ∀ a after, Returns runner (next a) after) :
    Returns runner (computation >>= next) world := by
  obtain ⟨result, between, ends, before⟩ := first
  cases result with
  | error fault => exact ⟨.error fault, between, ends.bind_error, before⟩
  | ok a =>
      obtain ⟨result, after, endsLater, extends_⟩ := later a between
      exact ⟨result, after, ends.bind endsLater, before.trans extends_⟩

theorem look (observe : Heap → α) : Returns runner (TaskM.look observe) world :=
  ⟨.ok (observe world.store.heap), world, fun _ => rfl, .refl world⟩

theorem watch (computation : Heap → Watch α) : Returns runner (TaskM.watch computation) world :=
  ⟨_, world.mapStore fun store => store.track ((computation store.heap).run #[]).2, fun _ => rfl,
    .mapStore (Store.grows_track _ _) (Store.stack_tracker_track _ _)⟩

theorem report (tracker : TrackerId) (fault : Fault) :
    Returns runner (TaskM.report tracker fault) world :=
  ⟨_, _, .report tracker fault world, report_extends world tracker fault⟩

variable (keeps : runner.Extends)

include keeps

theorem tryWrite (target : ContainerId) (key : Key) (value : Value) :
    Returns runner (TaskM.tryWrite target key value) world :=
  ⟨_, _, fun _ => rfl, write_extends keeps target key value world⟩

theorem pop (target : ContainerId) : Returns runner (TaskM.pop target) world :=
  ⟨_, _, fun _ => rfl, pop_extends keeps target world⟩

theorem tryRun (tracker : TrackerId) (effect : EffectId) :
    Returns runner (TaskM.tryRun tracker effect) world :=
  ⟨_, _, fun _ => rfl, keeps tracker effect world⟩

theorem createEffect (tracker : TrackerId) (body : TaskM σ Value) :
    Returns runner (TaskM.createEffect tracker body) world :=
  ⟨_, _, .createEffect tracker body world,
    (define_extends world body.toTask).trans (fanOut_extends keeps tracker _ _)⟩

theorem untracked (tracker : TrackerId) (block : TaskM σ Value) :
    Returns runner (TaskM.untracked tracker block) world :=
  ⟨_, _, fun _ => rfl, .within (enter_grows world tracker none) rfl (fun _ => rfl)
    (interpret_extends keeps block.toTask (world.enter tracker none))⟩

theorem set (target : ContainerId) (key : Key) (value : Value) :
    Returns runner (TaskM.set target key value) world := by
  refine (tryWrite keeps target key value).bind fun result after => ?_
  cases result with
  | ok done => exact pure ()
  | error fault => exact (look _).bind fun owner after => report owner (.reactive fault)

theorem push (target : ContainerId) (value : Value) :
    Returns runner (TaskM.push target value) world := by
  refine (look _).bind fun contents after => ?_
  cases contents with
  | array items named => exact (set keeps target _ value).bind fun _ _ => pure _
  | object properties => exact pure 0

theorem write (target : ContainerId) (change : Write) :
    Returns runner (change.perform target) world := by
  cases change with
  | set key value => exact (set keeps target key value).bind fun _ _ => pure _
  | trySet key value =>
      refine (tryWrite keeps target key value).bind fun result after => ?_
      cases result with
      | ok done => exact pure _
      | error fault => exact fail _
  | push value => exact (push keeps target value).bind fun _ _ => pure _
  | pop => exact pop keeps target

end Returns

end TaskM

/-- Every call comes back with the frames as they were. -/
theorem Call.returns {σ : Type} {runner : World.Runner σ} (keeps : runner.Extends) (call : Call σ)
    (world : World σ) : call.computation.Returns runner world := by
  cases call with
  | get target key => exact .watch fun heap => heap.get target key
  | write target change => exact .write keeps target change
  | createEffect tracker body =>
      exact (TaskM.Returns.createEffect keeps tracker body).bind fun _ _ => .pure _
  | runEffect tracker effect =>
      refine (TaskM.Returns.tryRun keeps tracker effect).bind fun result after => ?_
      cases result with
      | ok done => exact .pure _
      | error fault => exact .fail _
  | untracked tracker block => exact .untracked keeps tracker block

/-! ## Main statements -/

namespace World

variable {σ : Type}

/-- Whether nothing is running. -/
def AtRest (world : World σ) : Prop := ∀ id, (world.store.tracker id).stack = []

theorem AtRest.nested {world : World σ} (resting : world.AtRest) (work : Work σ) :
    Point.Nested ⟨[], work, world⟩ :=
  ⟨fun tracker _ => resting tracker, fun _ _ => List.nodup_nil, fun _ _ => Nat.zero_le _⟩

/-- After a run from the outside nothing is running. -/
theorem AtRest.exec {world : World σ} (resting : world.AtRest) (computation : TaskM σ Value) :
    (world.exec computation).2.AtRest :=
  fun id => ((exec_extends world computation).stack id).trans (resting id)

theorem blank_resting (config : Config) (surroundings : σ) :
    (blank config surroundings).AtRest := by
  rintro ⟨index⟩
  cases index <;> rfl

/-- At every point of every run, the stack of a tracker is what has been entered and not been left,
and no effect is on it twice.  And whatever is called, and however the call comes out, the stacks
are afterwards what they were. -/
theorem stacks_mirror_calls {world : World σ} {computation : TaskM σ Value} (resting : world.AtRest)
    (rooted : world.Rooted) (uses : computation.toTask.Uses world.store.HasTracker) :
    (∃ passed, Point.Runs ⟨[], .task computation.toTask, world⟩ passed (world.exec computation).1
        (world.exec computation).2 ∧
      ∀ point ∈ passed, ∀ tracker,
        ((point.world.store.tracker tracker).stack.filterMap id).Nodup ∧
        (point.world.store.HasTracker tracker →
          (point.world.store.tracker tracker).stack = Frame.entered point.frames tracker)) ∧
    ∀ (call : Call σ) (bound : Nat) (before : World σ), ∃ result after,
      call.computation.Ends (runEffect bound) before result after ∧
      ∀ tracker, (after.store.tracker tracker).stack = (before.store.tracker tracker).stack := by
  constructor
  · obtain ⟨passed, runs⟩ := exec_runs rooted uses
    refine ⟨passed, runs, fun point member tracker => ?_⟩
    have nested := runs.nested (resting.nested _) point member
    refine ⟨?_, nested.stack tracker⟩
    by_cases known : point.world.store.HasTracker tracker
    · rw [nested.stack tracker known]
      exact nested.distinct tracker known
    · rw [Store.tracker, Array.getElem?_eq_none (Nat.le_of_not_lt known)]
      exact List.nodup_nil
  · intro call bound before
    obtain ⟨result, after, ends, extends_⟩ := call.returns (runEffect_extends bound) before
    exact ⟨result, after, ends, extends_.stack⟩

/-- Every run comes to an end after finitely many points, at which effects have run as often as they
have been counted.  At none of them more effects of a tracker are open than its limit allows. -/
theorem propagation_ends {world : World σ} {computation : TaskM σ Value} (resting : world.AtRest)
    (rooted : world.Rooted) (uses : computation.toTask.Uses world.store.HasTracker) :
    ∃ passed, Point.Runs ⟨[], .task computation.toTask, world⟩ passed (world.exec computation).1
        (world.exec computation).2 ∧
      (∀ effect, (world.exec computation).2.store.runCount effect =
        world.store.runCount effect + passed.countP (Point.begins effect)) ∧
      ∀ point ∈ passed, ∀ tracker, world.store.HasTracker tracker →
        (point.running tracker).length ≤ (world.store.tracker tracker).config.maxEffectDepth := by
  obtain ⟨passed, runs⟩ := exec_runs rooted uses
  refine ⟨passed, runs, runs.runCount, fun point member tracker known => ?_⟩
  have grows := runs.grows point member
  have same : point.world.store.HasTracker tracker := grows.hasTracker ▸ known
  rw [← grows.config]
  exact (runs.nested (resting.nested _) point member).limited tracker same

/-! ## An effect that writes to what it reads -/

/-- Reads the length of an array and appends to it, so that it would run again. -/
def grower (list : ContainerId) : TaskM Unit Value := do
  let _ ← TaskM.watch fun heap => heap.length list
  let _ ← TaskM.push list .null
  return .undefined

/-- Makes a container and an effect that works on it. -/
def effectOnNew (request : Request) (body : ContainerId → TaskM Unit Value) : TaskM Unit Value := do
  match ← TaskM.make request with
  | .container id => (Call.createEffect ⟨0⟩ (body id)).computation
  | _ => return .undefined

theorem uses_effectOnNew {config : Config} {request : Request}
    {body : ContainerId → TaskM Unit Value}
    (makes : ∀ tracker, Heap.MakesFor tracker request → ⟨0⟩ = tracker)
    (uses : ∀ id, (body id).Uses (blank config ()).store.HasTracker) :
    (effectOnNew request body).toTask.Uses (blank config ()).store.HasTracker := by
  have there : (blank config ()).store.HasTracker ⟨0⟩ := Nat.zero_lt_one
  refine TaskM.Uses.toTask ((TaskM.uses_make fun tracker names => ?_).bind fun value => ?_)
  · exact makes tracker names ▸ there
  · cases value with
    | container id => exact ((uses id).createEffect there).bind fun _ => TaskM.uses_pure _
    | _ => exact TaskM.uses_pure _

/-- Makes an array and an effect that reads its length and appends to it. -/
def startGrower : TaskM Unit Value := effectOnNew (.array ⟨0⟩ []) grower

theorem uses_startGrower (config : Config) :
    startGrower.toTask.Uses (blank config ()).store.HasTracker :=
  uses_effectOnNew (fun _ makes => makes) fun list =>
    (TaskM.uses_watch fun heap => heap.length list).bind fun _ =>
      (TaskM.uses_push list .null).bind fun _ => TaskM.uses_pure _

/-- The effect that would run again is never on the stack twice. -/
theorem grower_entered_once :
    ∃ passed, Point.Runs ⟨[], .task startGrower.toTask, blank .default ()⟩ passed
        ((blank .default ()).exec startGrower).1 ((blank .default ()).exec startGrower).2 ∧
      ∀ point ∈ passed, ((point.world.store.tracker ⟨0⟩).stack.filterMap id).Nodup := by
  obtain ⟨⟨passed, runs, mirrored⟩, _⟩ := stacks_mirror_calls (blank_resting .default ())
    (blank_rooted .default ()) (uses_startGrower .default)
  exact ⟨passed, runs, fun point member => (mirrored point member ⟨0⟩).1⟩

/-- Where one effect may be open, the effect that would run again comes to an end. -/
theorem grower_ends :
    ∃ passed, Point.Runs ⟨[], .task startGrower.toTask, blank ⟨"a-", 1⟩ ()⟩ passed
        ((blank ⟨"a-", 1⟩ ()).exec startGrower).1 ((blank ⟨"a-", 1⟩ ()).exec startGrower).2 ∧
      ∀ point ∈ passed, (point.running ⟨0⟩).length ≤ 1 := by
  obtain ⟨passed, runs, _, limited⟩ := propagation_ends (blank_resting ⟨"a-", 1⟩ ())
    (blank_rooted ⟨"a-", 1⟩ ()) (uses_startGrower ⟨"a-", 1⟩)
  exact ⟨passed, runs, fun point member => limited point member ⟨0⟩ Nat.zero_lt_one⟩

end World

end LiveMarkup
