import Mathlib.Algebra.Order.BigOperators.Group.List
import Mathlib.Algebra.Order.Ring.Nat
import LiveMarkup.Proofs.Reactive.History

/-!
# Every run has a history

The bound that runs of effects descend on is never what ends a run: where all trackers that are
named exist, each body that is entered takes one of the frames that are left, and where none is left
the tracker itself refuses the next effect.  So what is computed with the bound is what a history
says, and since a history is a finite list, every run comes to an end.
-/

namespace LiveMarkup

namespace Heap

/-- Whether all containers belong to known trackers. -/
def OwnedBy (known : TrackerId → Prop) (heap : Heap) : Prop := ∀ id, known (heap.owner id)

end Heap

/-- Whether a task makes containers for known trackers and runs effects on known trackers only,
whatever answers it gets. -/
def Task.Uses {σ : Type} (known : TrackerId → Prop) : Task σ → Prop
  | .done _ => True
  | .look next => ∀ store, store.heap.OwnedBy known → (next store).Uses known
  | .has _ _ next => ∀ present, (next present).Uses known
  | .track _ next => next.Uses known
  | .make request next =>
      (∀ tracker, Heap.MakesFor tracker request → known tracker) ∧ ∀ value, (next value).Uses known
  | .write _ _ _ next => ∀ result, (next result).Uses known
  | .pop _ next => ∀ value, (next value).Uses known
  | .define body next => body.Uses known ∧ ∀ effect, (next effect).Uses known
  | .run tracker _ next => known tracker ∧ ∀ result, (next result).Uses known
  | .untracked _ block next => block.Uses known ∧ ∀ outcome, (next outcome).Uses known
  | .report _ _ next => next.Uses known
  | .drain _ next => ∀ faults, (next faults).Uses known
  | .survey next => ∀ surroundings, (next surroundings).Uses known
  | .alter _ next => next.Uses known

/-- Whether work makes containers for known trackers and runs effects on known trackers only.  Who
is told of changes runs on the trackers of containers. -/
def Work.Uses {σ : Type} (known : TrackerId → Prop) : Work σ → Prop
  | .task code => code.Uses known
  | .attempt tracker _ => known tracker
  | .attempts tracker _ => known tracker
  | .tell _ => True

/-- Whether a computation makes containers for known trackers and runs effects on known trackers
only, if what comes after it does. -/
def TaskM.Uses {σ α : Type} (known : TrackerId → Prop) (computation : TaskM σ α) : Prop :=
  ∀ next, (∀ result, (next result).Uses known) → (computation next).Uses known

namespace TaskM

variable {σ α β : Type} {known : TrackerId → Prop}

theorem Uses.toTask {body : TaskM σ Value} (uses : body.Uses known) : body.toTask.Uses known :=
  uses .done fun _ => trivial

theorem Uses.bind {computation : TaskM σ α} {next : α → TaskM σ β} (uses : computation.Uses known)
    (later : ∀ a, (next a).Uses known) : (computation >>= next).Uses known := by
  intro finish closed
  refine uses _ fun result => ?_
  cases result with
  | error fault => exact closed _
  | ok a => exact later a finish closed

theorem uses_pure (a : α) : (Pure.pure a : TaskM σ α).Uses known := fun _ closed => closed _

theorem uses_look (observe : Heap → α) : (look observe : TaskM σ α).Uses known :=
  fun _ closed _ _ => closed _

theorem uses_watch (computation : Heap → Watch α) : (watch computation : TaskM σ α).Uses known :=
  fun _ closed _ _ => closed _

theorem uses_make {request : Request}
    (names : ∀ tracker, Heap.MakesFor tracker request → known tracker) :
    (make request : TaskM σ Value).Uses known :=
  fun _ closed => ⟨names, fun _ => closed _⟩

theorem uses_tryWrite (target : ContainerId) (key : Key) (value : Value) :
    (tryWrite target key value : TaskM σ _).Uses known :=
  fun _ closed _ => closed _

theorem uses_report (tracker : TrackerId) (fault : Fault) :
    (report tracker fault : TaskM σ Unit).Uses known :=
  fun _ closed => closed _

theorem uses_tryRun {tracker : TrackerId} (there : known tracker) (effect : EffectId) :
    (tryRun tracker effect : TaskM σ _).Uses known :=
  fun _ closed => ⟨there, fun _ => closed _⟩

theorem Uses.untracked {block : TaskM σ Value} (uses : block.Uses known) (tracker : TrackerId) :
    (untracked tracker block).Uses known :=
  fun _ closed => ⟨uses.toTask, closed⟩

theorem Uses.createEffect {body : TaskM σ Value} {tracker : TrackerId} (uses : body.Uses known)
    (there : known tracker) : (createEffect tracker body).Uses known := by
  have defined : (define body).Uses known := fun _ closed => ⟨uses.toTask, fun _ => closed _⟩
  refine defined.bind fun effect => (uses_tryRun there effect).bind fun result => ?_
  cases result with
  | ok done => exact uses_pure effect
  | error fault => exact (uses_report tracker fault).bind fun _ => uses_pure effect

theorem uses_set (target : ContainerId) (key : Key) (value : Value) :
    (set target key value : TaskM σ Unit).Uses known := by
  refine (uses_tryWrite target key value).bind fun result => ?_
  cases result with
  | ok done => exact uses_pure ()
  | error fault => exact (uses_look _).bind fun owner => uses_report owner _

theorem uses_push (target : ContainerId) (value : Value) :
    (push target value : TaskM σ Nat).Uses known := by
  refine (uses_look _).bind fun contents => ?_
  cases contents with
  | array items named => exact (uses_set target _ value).bind fun _ => uses_pure _
  | object properties => exact uses_pure 0

end TaskM

namespace Heap

theorem OwnedBy.staysWithNew {known : TrackerId → Prop} {tracker : TrackerId}
    (there : known tracker) : StaysWithNew tracker (OwnedBy known) := by
  intro heap contents _ owned id
  rw [owner, container_newContainer]
  split
  · exact there
  · exact owned id

theorem OwnedBy.perform {known : TrackerId → Prop} {request : Request} {heap : Heap}
    (names : ∀ tracker, MakesFor tracker request → known tracker) (owned : heap.OwnedBy known) :
    (request.perform heap).2.OwnedBy known := by
  refine Preserves.perform (fun tracker makes => staysWithNew (names tracker makes)) ?_ heap owned
  intro before after same owned id
  rw [owner, container, same]
  exact owned id

theorem OwnedBy.setContents {known : TrackerId → Prop} {heap : Heap} (owned : heap.OwnedBy known)
    (id : ContainerId) (contents : Contents) : (heap.setContents id contents).OwnedBy known := by
  intro other
  rw [owner_setContents]
  exact owned other

end Heap

namespace Store

theorem ownedBy_put {known : TrackerId → Prop} {store : Store} (owned : store.heap.OwnedBy known)
    (id : ContainerId) (key : Key) (value : Value) :
    (store.put id key value).2.heap.OwnedBy known := by
  have adopted : (Heap.adopt (store.heap.owner id) value store.heap).2.OwnedBy known :=
    Heap.Preserves.adopt (Heap.OwnedBy.staysWithNew (owned id)) value store.heap owned
  obtain ⟨taken, heap, adoption, refused | ⟨contents, -, stored⟩⟩ := heap_put_cases store id key value
  · rw [refused]
    rwa [adoption] at adopted
  · rw [stored]
    rw [adoption] at adopted
    exact adopted.setContents id contents

theorem ownedBy_takeLast {known : TrackerId → Prop} {store : Store}
    (owned : store.heap.OwnedBy known) (id : ContainerId) :
    (store.takeLast id).2.2.heap.OwnedBy known := by
  rcases takeLast_cases store id with nothing | ⟨position, last, rest, _, taken⟩
  · rw [nothing]
    exact owned
  · rw [taken]
    exact owned.setContents id rest

theorem Grows.hasTracker {before after : Store} (grows : before.Grows after) :
    after.HasTracker = before.HasTracker := by
  funext id
  rw [HasTracker, grows.trackers, HasTracker]

/-! ## Room -/

theorem tracker_getElem (store : Store) (index : Nat) (known : index < store.trackers.size) :
    store.tracker ⟨index⟩ = store.trackers[index] := by
  rw [tracker, Array.getElem?_eq_getElem known, Option.getD_some]

/-- The room is that of all trackers together. -/
theorem room_eq_sum (store : Store) :
    store.room =
      ((List.range store.trackers.size).map fun index => (store.tracker ⟨index⟩).room).sum := by
  have rooms : store.trackers.toList.map Tracker.room =
      (List.range store.trackers.size).map fun index => (store.tracker ⟨index⟩).room := by
    refine List.ext_getElem (by simp) fun index first second => ?_
    have known : index < store.trackers.size := by simpa using first
    simp [tracker_getElem store index known]
  rw [room, rooms, List.sum]

theorem room_le {before after : Store} (trackers : after.trackers.size = before.trackers.size)
    (less : ∀ id, (after.tracker id).room ≤ (before.tracker id).room) :
    after.room ≤ before.room := by
  rw [room_eq_sum, room_eq_sum, trackers]
  exact List.sum_le_sum fun index _ => less ⟨index⟩

theorem room_lt {before after : Store} (trackers : after.trackers.size = before.trackers.size)
    (less : ∀ id, (after.tracker id).room ≤ (before.tracker id).room) {id : TrackerId}
    (known : before.HasTracker id) (strictly : (after.tracker id).room < (before.tracker id).room) :
    after.room < before.room := by
  rw [room_eq_sum, room_eq_sum, trackers]
  exact List.sum_lt_sum _ _ (fun index _ => less ⟨index⟩)
    ⟨id.index, List.mem_range.mpr known, strictly⟩

end Store

namespace World

variable {σ : Type}

theorem Extends.hasTracker {world after : World σ} (extends_ : world.Extends after) :
    after.store.HasTracker = world.store.HasTracker :=
  extends_.store.hasTracker

theorem Extends.room_eq {world after : World σ} (extends_ : world.Extends after) :
    after.store.room = world.store.room := by
  have same (id : TrackerId) : (after.store.tracker id).room = (world.store.tracker id).room := by
    rw [Tracker.room, extends_.stack, extends_.store.config, Tracker.room]
  rw [Store.room_eq_sum, Store.room_eq_sum, extends_.store.trackers]
  simp only [same]

theorem room_enter_le (world : World σ) (tracker : TrackerId) (frame : Option EffectId) :
    (world.enter tracker frame).store.room ≤ world.store.room := by
  refine Store.room_le (Store.size_modifyTracker _ _ _) fun id => ?_
  rw [Tracker.room, (enter_grows world tracker frame).config, stack_enter, Tracker.room]
  split
  · exact Nat.sub_le_sub_left (Nat.le_succ _) _
  · exact Nat.le_refl _

/-- An effect that is not refused finds a frame. -/
theorem room_of_free {world : World σ} {tracker : TrackerId} {effect : EffectId}
    (free : world.refusal? tracker effect = none) :
    effect ∉ (world.store.tracker tracker).stack.filterMap id ∧
      (world.store.tracker tracker).stack.length <
        (world.store.tracker tracker).config.maxEffectDepth := by
  simp only [refusal?] at free
  split at free
  next => contradiction
  next waiting =>
    split at free
    next => contradiction
    next room =>
      refine ⟨fun running => waiting ?_, Nat.lt_of_not_le room⟩
      obtain ⟨frame, member, same⟩ := List.mem_filterMap.mp running
      exact List.contains_iff_mem.mpr (same ▸ member)

/-- A body that is entered takes a frame. -/
theorem room_begin_lt {world : World σ} {tracker : TrackerId} {effect : EffectId}
    (known : world.store.HasTracker tracker) (free : world.refusal? tracker effect = none) :
    (world.begin tracker effect).store.room < world.store.room := by
  have limit := (room_of_free free).2
  have fewer (id : TrackerId) : ((world.begin tracker effect).store.tracker id).room =
      ((world.enter tracker (some effect)).store.tracker id).room := rfl
  have taken : ((world.begin tracker effect).store.tracker tracker).room + 1 =
      (world.store.tracker tracker).room := by
    rw [fewer, Tracker.room, (enter_grows world tracker (some effect)).config, stack_enter,
      if_pos ⟨rfl, known⟩, Tracker.room, List.length_cons]
    omega
  refine Store.room_lt (begin_grows world tracker effect).trackers (fun id => ?_) known
    (by omega)
  rw [fewer, Tracker.room, (enter_grows world tracker (some effect)).config, stack_enter,
    Tracker.room]
  split
  · exact Nat.sub_le_sub_left (Nat.le_succ _) _
  · exact Nat.le_refl _

/-! ## Existing trackers -/

/-- Whether containers belong to trackers that exist, and bodies of effects name only such. -/
structure Rooted (world : World σ) : Prop where
  /-- Every container belongs to a tracker. -/
  owned : world.store.heap.OwnedBy world.store.HasTracker
  /-- Every effect names only trackers that exist. -/
  bodies : ∀ body ∈ world.bodies, body.Uses world.store.HasTracker

theorem Rooted.of_extends {world after : World σ} (rooted : world.Rooted)
    (extends_ : world.Extends after) (owned : after.store.heap.OwnedBy world.store.HasTracker)
    (bodies : after.bodies = world.bodies) : after.Rooted := by
  constructor
  · rw [extends_.hasTracker]
    exact owned
  · rw [extends_.hasTracker, bodies]
    exact rooted.bodies

theorem Rooted.uses_body {world : World σ} (rooted : world.Rooted) (effect : EffectId) :
    (world.body effect).Uses world.store.HasTracker := by
  rw [body]
  cases given : world.bodies[effect.index]? with
  | none => trivial
  | some body => exact rooted.bodies body (Array.mem_of_getElem? given)

end World

namespace Point

open World

variable {σ : Type}

/-- Whether something stays true at all points of a run, with what is true at its end.  Effects run
only on trackers that exist. -/
structure Kept (holds : Point σ → Prop) (final : Except Fault Value → World σ → Prop) : Prop where
  /-- It leads to what is true at the end. -/
  ends {point : Point σ} {result : Except Fault Value} {after : World σ}
    (ends : point.Ends result after) (here : holds point) : final result after
  /-- It stays true where a run goes on. -/
  goes {point next : Point σ} (goes : point.Goes next) (here : holds point) : holds next
  /-- It stays true where a run calls another one. -/
  calls {point callee : Point σ} {resume : Except Fault Value → World σ → Point σ}
    (calls : point.Calls callee resume) (here : holds point) : holds callee
  /-- It is true again where the caller goes on. -/
  resumes {point callee : Point σ} {resume : Except Fault Value → World σ → Point σ}
    {outcome : Except Fault Value} {between : World σ} (calls : point.Calls callee resume)
    (here : holds point) (inside : callee.world.Extends between) (last : final outcome between) :
    holds (resume outcome between)
  /-- The tracker of an effect that is to run exists. -/
  known {frames : List Frame} {tracker : TrackerId} {effect : EffectId} {world : World σ}
    (here : holds ⟨frames, .attempt tracker effect, world⟩) : world.store.HasTracker tracker

section Kept

variable {holds : Point σ → Prop} {final : Except Fault Value → World σ → Prop}

theorem Kept.along (kept : Kept holds final) {point : Point σ} {passed : List (Point σ)}
    {result : Except Fault Value} {after : World σ} (runs : point.Runs passed result after)
    (start : holds point) : (∀ inner ∈ passed, holds inner) ∧ final result after :=
  runs.keeps_outcome holds final kept.ends kept.goes kept.calls kept.resumes start

theorem Kept.resumed (kept : Kept holds final) {point callee : Point σ}
    {resume : Except Fault Value → World σ → Point σ} {inside : List (Point σ)}
    {outcome : Except Fault Value} {between : World σ} (called : callee.Runs inside outcome between)
    (calls : point.Calls callee resume) (start : holds point) : holds (resume outcome between) :=
  kept.resumes calls start called.extends_ (kept.along called (kept.calls calls start)).2

end Kept

/-- Whether what there is and what is to be done name only trackers that exist. -/
structure Rooted (point : Point σ) : Prop where
  /-- What there is names only trackers that exist. -/
  world : point.world.Rooted
  /-- What is to be done names only trackers that exist. -/
  work : point.work.Uses point.world.store.HasTracker

theorem Rooted.goes {point next : Point σ} (rooted : point.Rooted) (goes : point.Goes next) :
    next.Rooted := by
  have extends_ := goes.extends_
  have same := extends_.hasTracker
  obtain ⟨world, work⟩ := rooted
  cases goes with
  | look => exact ⟨world, work _ world.owned⟩
  | has => exact ⟨world, work _⟩
  | track =>
      refine ⟨world.of_extends extends_ ?_ rfl, same ▸ work⟩
      change Heap.OwnedBy _ (Store.track _ _).heap
      rw [Store.heap_track]
      exact world.owned
  | make => exact ⟨world.of_extends extends_ (world.owned.perform work.1) rfl, same ▸ work.2 _⟩
  | @refuse _ target key value _ _ _ _ refused =>
      have owned := Store.ownedBy_put world.owned target key value
      rw [refused] at owned
      exact ⟨world.of_extends extends_ owned rfl, same ▸ work _⟩
  | define =>
      refine ⟨⟨world.owned, fun body member => ?_⟩, same ▸ work.2 _⟩
      rcases Array.mem_push.mp member with old | rfl
      · exact world.bodies body old
      · exact work.1
  | report => exact ⟨world.of_extends extends_ world.owned rfl, same ▸ work⟩
  | drain => exact ⟨world.of_extends extends_ world.owned rfl, same ▸ work _⟩
  | survey => exact ⟨world, work _⟩
  | alter => exact ⟨world.of_extends extends_ world.owned rfl, same ▸ work⟩

theorem Rooted.calls {point callee : Point σ} {resume : Except Fault Value → World σ → Point σ}
    (rooted : point.Rooted) (calls : point.Calls callee resume) : callee.Rooted := by
  have same := calls.grows.hasTracker
  obtain ⟨world, work⟩ := rooted
  cases calls with
  | @write _ target key value _ before _ store accepted =>
      have owned := Store.ownedBy_put world.owned target key value
      rw [accepted] at owned
      exact ⟨⟨same ▸ owned, same ▸ world.bodies⟩, trivial⟩
  | @pop _ target _ before =>
      have owned := Store.ownedBy_takeLast world.owned target
      exact ⟨⟨same ▸ owned, same ▸ world.bodies⟩, trivial⟩
  | run => exact ⟨world, work.1⟩
  | untracked => exact ⟨⟨same ▸ world.owned, same ▸ world.bodies⟩, same ▸ work.1⟩
  | @begin _ _ effect before =>
      exact ⟨⟨same ▸ world.owned, same ▸ world.bodies⟩, same ▸ world.uses_body effect⟩
  | attempts => exact ⟨world, work⟩
  | tell => exact ⟨world, world.owned _⟩

theorem Rooted.resumes {point callee : Point σ}
    {resume : Except Fault Value → World σ → Point σ} {between : World σ} (rooted : point.Rooted)
    (calls : point.Calls callee resume) (inside : callee.world.Extends between)
    (final : between.Rooted) (outcome : Except Fault Value) :
    (resume outcome between).Rooted := by
  have same := (calls.extends_ inside outcome).hasTracker
  have left (tracker : TrackerId) : (between.leave tracker).Rooted := by
    have trackers : (between.leave tracker).store.HasTracker = between.store.HasTracker := by
      funext id
      rw [Store.HasTracker, leave, mapStore, Store.size_modifyTracker, Store.HasTracker]
    exact ⟨trackers ▸ final.owned, trackers ▸ final.bodies⟩
  have work := rooted.work
  cases calls with
  | write => exact ⟨final, same ▸ work _⟩
  | pop => exact ⟨final, same ▸ work _⟩
  | run => exact ⟨final, same ▸ work.2 _⟩
  | untracked => exact ⟨left _, same ▸ work.2 _⟩
  | begin => exact ⟨left _, trivial⟩
  | @attempts _ tracker _ _ _ =>
      refine ⟨final.of_extends (settle_extends between tracker outcome) ?_ ?_, same ▸ work⟩
      · cases outcome <;> exact final.owned
      · cases outcome <;> rfl
  | tell => exact ⟨final, trivial⟩

/-- Where only existing trackers are named, a run names no others. -/
theorem rooted_kept : Kept (σ := σ) Rooted (fun _ => World.Rooted) where
  ends ends rooted := ends.world_eq ▸ rooted.world
  goes goes rooted := rooted.goes goes
  calls calls rooted := rooted.calls calls
  resumes calls rooted inside final := rooted.resumes calls inside final _
  known rooted := rooted.work

theorem Runs.rooted {point : Point σ} {passed : List (Point σ)} {result : Except Fault Value}
    {after : World σ} (runs : point.Runs passed result after) (rooted : point.Rooted) :
    (∀ inner ∈ passed, inner.Rooted) ∧ after.Rooted :=
  rooted_kept.along runs rooted

end Point

/-! ## Histories -/

namespace World

variable {σ : Type} {holds : Point σ → Prop} {final : Except Fault Value → World σ → Prop}
  {runner : Runner σ} {bound : Nat}

/-- Whether what a way to run effects computes is what histories say, in every world in which no
more frames are left than the bound. -/
def Runner.Adequate (holds : Point σ → Prop) (runner : Runner σ) (bound : Nat) : Prop :=
  ∀ (frames : List Frame) (tracker : TrackerId) (effect : EffectId) (world : World σ),
    holds ⟨frames, .attempt tracker effect, world⟩ → world.store.room ≤ bound →
      ∃ passed outcome,
        Point.Runs ⟨frames, .attempt tracker effect, world⟩ passed outcome
          (runner tracker effect world).2 ∧
        (runner tracker effect world).1 = outcome.map fun _ => ()

/-- Running effects one after another has a history. -/
theorem fanOut_runs (kept : Point.Kept holds final) (adequate : runner.Adequate holds bound)
    (frames : List Frame) {tracker : TrackerId} (effects : List EffectId) {world : World σ}
    (start : holds ⟨frames, .attempts tracker effects, world⟩) (room : world.store.room ≤ bound) :
    ∃ passed outcome, Point.Runs ⟨frames, .attempts tracker effects, world⟩ passed outcome
      (world.fanOut runner tracker effects) := by
  induction effects generalizing world with
  | nil => exact ⟨_, _, .ends .attempted⟩
  | cons effect rest ih =>
      have calls : Point.Calls ⟨frames, .attempts tracker (effect :: rest), world⟩ _ _ := .attempts
      obtain ⟨inside, outcome, called, answer⟩ :=
        adequate frames tracker effect world (kept.calls calls start) room
      have first : world.fanOut runner tracker (effect :: rest) =
          ((runner tracker effect world).2.settle tracker outcome).fanOut runner tracker rest := by
        rw [fanOut, List.foldl_cons]
        cases ran : runner tracker effect world with
        | mk result after =>
        rw [ran] at answer
        cases outcome with
        | ok value =>
            obtain rfl : result = .ok () := answer
            rfl
        | error fault =>
            obtain rfl : result = .error fault := answer
            rfl
      have extends_ := calls.extends_ called.extends_ outcome
      obtain ⟨passed, result, later⟩ := ih (kept.resumed called calls start)
        (Nat.le_trans (Nat.le_of_eq extends_.room_eq) room)
      rw [first]
      exact ⟨_, result, .calls calls called later⟩

/-- Telling readers has a history. -/
theorem tell_runs (kept : Point.Kept holds final) (adequate : runner.Adequate holds bound)
    (frames : List Frame) (changed : List Access) {world : World σ}
    (start : holds ⟨frames, .tell changed, world⟩) (room : world.store.room ≤ bound) :
    ∃ passed outcome, Point.Runs ⟨frames, .tell changed, world⟩ passed outcome
      (changed.foldl (trigger runner) world) := by
  induction changed generalizing world with
  | nil => exact ⟨_, _, .ends .told⟩
  | cons access rest ih =>
      have calls : Point.Calls ⟨frames, .tell (access :: rest), world⟩ _ _ := .tell
      obtain ⟨inside, outcome, called⟩ := fanOut_runs kept adequate frames
        (world.store.dependents access) (kept.calls calls start) room
      obtain ⟨passed, result, later⟩ := ih (kept.resumed called calls start)
        (Nat.le_trans (Nat.le_of_eq called.extends_.room_eq) room)
      exact ⟨_, result, .calls calls called later⟩

/-- Whether the runs of a task have histories, in every world in which no more frames are left than
the bound. -/
def Traced (holds : Point σ → Prop) (runner : Runner σ) (bound : Nat) (task : Task σ) : Prop :=
  ∀ (frames : List Frame) (world : World σ), holds ⟨frames, .task task, world⟩ →
    world.store.room ≤ bound →
      ∃ passed, Point.Runs ⟨frames, .task task, world⟩ passed (interpret runner task world).1
        (interpret runner task world).2

theorem Traced.of_goes (kept : Point.Kept holds final) {frames : List Frame} {task next : Task σ}
    {world after : World σ} (traced : Traced holds runner bound next)
    (goes : Point.Goes ⟨frames, .task task, world⟩ ⟨frames, .task next, after⟩)
    (same : interpret runner task world = interpret runner next after)
    (start : holds ⟨frames, .task task, world⟩) (room : world.store.room ≤ bound) :
    ∃ passed, Point.Runs ⟨frames, .task task, world⟩ passed (interpret runner task world).1
      (interpret runner task world).2 := by
  obtain ⟨passed, later⟩ := traced frames after (kept.goes goes start)
    (Nat.le_trans (Nat.le_of_eq goes.extends_.room_eq) room)
  rw [same]
  exact ⟨_, .goes goes later⟩

theorem Traced.of_calls (kept : Point.Kept holds final) {frames : List Frame}
    {task next : Task σ} {world after : World σ} {callee : Point σ}
    {resume : Except Fault Value → World σ → Point σ} {inside : List (Point σ)}
    {outcome : Except Fault Value} {between : World σ} (traced : Traced holds runner bound next)
    (calls : Point.Calls ⟨frames, .task task, world⟩ callee resume)
    (called : callee.Runs inside outcome between)
    (resumes : resume outcome between = ⟨frames, .task next, after⟩)
    (same : interpret runner task world = interpret runner next after)
    (start : holds ⟨frames, .task task, world⟩) (room : world.store.room ≤ bound) :
    ∃ passed, Point.Runs ⟨frames, .task task, world⟩ passed (interpret runner task world).1
      (interpret runner task world).2 := by
  have resumed := kept.resumed called calls start
  have extends_ := calls.extends_ called.extends_ outcome
  rw [resumes] at resumed extends_
  obtain ⟨passed, later⟩ := traced frames after resumed
    (Nat.le_trans (Nat.le_of_eq extends_.room_eq) room)
  rw [same]
  exact ⟨_, .calls calls called (resumes ▸ later)⟩

/-- The run of a task has a history. -/
theorem interpret_runs (kept : Point.Kept holds final) (adequate : runner.Adequate holds bound)
    (task : Task σ) : Traced holds runner bound task := by
  induction task with
  | done result => exact fun _ _ _ _ => ⟨_, .ends .done⟩
  | look next ih => exact fun _ _ start room => (ih _).of_goes kept .look rfl start room
  | has target key next ih => exact fun _ _ start room => (ih _).of_goes kept .has rfl start room
  | track reads next ih => exact fun _ _ start room => ih.of_goes kept .track rfl start room
  | make request next ih => exact fun _ _ start room => (ih _).of_goes kept .make rfl start room
  | write target key value next ih =>
      intro frames world start room
      cases stored : world.store.put target key value with
      | mk outcome store =>
      cases outcome with
      | error fault =>
          refine (ih (.error fault)).of_goes kept (.refuse stored) ?_ start room
          rw [interpret, write, stored]
      | ok changed =>
          have calls : Point.Calls ⟨frames, .task (.write target key value next), world⟩
            ⟨frames, .tell changed, { world with store := store }⟩ _ := .write stored
          have extends_ := calls.extends_ (.refl _) (.ok .undefined)
          obtain ⟨inside, outcome, called⟩ := tell_runs kept adequate frames changed
            (kept.calls calls start) (Nat.le_trans (Nat.le_of_eq extends_.room_eq) room)
          refine (ih (.ok ())).of_calls kept calls called rfl ?_ start room
          rw [interpret, write, stored]
  | pop target next ih =>
      intro frames world start room
      have calls : Point.Calls ⟨frames, .task (.pop target next), world⟩ _ _ := .pop
      have extends_ := calls.extends_ (.refl _) (.ok .undefined)
      obtain ⟨inside, outcome, called⟩ := tell_runs kept adequate frames _ (kept.calls calls start)
        (Nat.le_trans (Nat.le_of_eq extends_.room_eq) room)
      exact (ih _).of_calls kept calls called rfl rfl start room
  | define body next _ ih => exact fun _ _ start room => (ih _).of_goes kept .define rfl start room
  | run tracker effect next ih =>
      intro frames world start room
      have calls : Point.Calls ⟨frames, .task (.run tracker effect next), world⟩ _ _ := .run
      obtain ⟨inside, outcome, called, answer⟩ :=
        adequate frames tracker effect world (kept.calls calls start) room
      refine (ih (outcome.map fun _ => ())).of_calls kept calls called rfl ?_ start room
      rw [interpret, ← answer]
  | untracked tracker block next inside ih =>
      intro frames world start room
      have calls : Point.Calls ⟨frames, .task (.untracked tracker block next), world⟩ _ _ :=
        .untracked
      obtain ⟨inside, called⟩ := inside _ _ (kept.calls calls start)
        (Nat.le_trans (room_enter_le world tracker none) room)
      exact (ih _).of_calls kept calls called rfl rfl start room
  | report tracker fault next ih =>
      exact fun _ _ start room => ih.of_goes kept .report rfl start room
  | drain tracker next ih => exact fun _ _ start room => (ih _).of_goes kept .drain rfl start room
  | survey next ih => exact fun _ _ start room => (ih _).of_goes kept .survey rfl start room
  | alter change next ih => exact fun _ _ start room => ih.of_goes kept .alter rfl start room

/-- The bound ends no run: where it is as large as the room, an effect that is not refused takes one
of the frames that are left, and fewer are left in its body. -/
theorem runEffect_adequate (kept : Point.Kept holds final) (bound : Nat) :
    Runner.Adequate holds (runEffect bound) bound := by
  induction bound with
  | zero =>
      intro frames tracker effect world start room
      rw [runEffect]
      cases refusal : world.refusal? tracker effect with
      | some fault => exact ⟨_, _, .ends (.refused refusal), rfl⟩
      | none => exact absurd (room_begin_lt (kept.known start) refusal) (by omega)
  | succ bound ih =>
      intro frames tracker effect world start room
      rw [runEffect]
      cases refusal : world.refusal? tracker effect with
      | some fault => exact ⟨_, _, .ends (.refused refusal), rfl⟩
      | none =>
          have calls : Point.Calls ⟨frames, .attempt tracker effect, world⟩ _ _ := .begin refusal
          have fewer := room_begin_lt (kept.known start) refusal
          obtain ⟨inside, called⟩ := interpret_runs kept ih (world.body effect) _ _
            (kept.calls calls start)
            (Nat.le_of_lt_succ (Nat.lt_of_lt_of_le fewer room))
          exact ⟨_, _, .calls calls called (.ends .done), rfl⟩

/-- What runs from the outside has a history. -/
theorem exec_runs_of_kept (kept : Point.Kept holds final) {world : World σ}
    {computation : TaskM σ Value} (start : holds ⟨[], .task computation.toTask, world⟩) :
    ∃ passed, Point.Runs ⟨[], .task computation.toTask, world⟩ passed
      (world.exec computation).1 (world.exec computation).2 :=
  interpret_runs kept (runEffect_adequate kept _) _ [] world start (Nat.le_refl _)

theorem exec_runs {world : World σ} {computation : TaskM σ Value} (rooted : world.Rooted)
    (uses : computation.toTask.Uses world.store.HasTracker) :
    ∃ passed, Point.Runs ⟨[], .task computation.toTask, world⟩ passed
      (world.exec computation).1 (world.exec computation).2 :=
  exec_runs_of_kept Point.rooted_kept ⟨rooted, uses⟩

/-- After a run from the outside another one can follow. -/
theorem Rooted.exec {world : World σ} {computation : TaskM σ Value} (rooted : world.Rooted)
    (uses : computation.toTask.Uses world.store.HasTracker) :
    (world.exec computation).2.Rooted := by
  obtain ⟨passed, runs⟩ := exec_runs rooted uses
  exact (runs.rooted ⟨rooted, uses⟩).2

/-- A world with one tracker in which nothing has happened. -/
def blank (config : Config) (surroundings : σ) : World σ := ⟨.new [config], surroundings, #[]⟩

theorem blank_rooted (config : Config) (surroundings : σ) : (blank config surroundings).Rooted :=
  ⟨fun _ => Nat.zero_lt_one, fun _ member => absurd member (Array.not_mem_empty _)⟩

end World

end LiveMarkup
