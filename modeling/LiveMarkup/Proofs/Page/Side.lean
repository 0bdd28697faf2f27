import LiveMarkup.Proofs.Page.Chart
import LiveMarkup.Proofs.Reactive.Attribution
import LiveMarkup.Proofs.Reactive.Yield

/-!
# Code on one side

Code that is given what lies on one side keeps to that side.  It only reads and writes containers of
that side, so the effects that it subscribes and those that its writes run are of that side too.
What holds of the primitive steps here holds of all evaluation, by the discipline that they form.
-/

namespace LiveMarkup

namespace TaskM.Ends

variable {σ α : Type} {runner : World.Runner σ} {world after : World σ}

/-- A write that is refused runs no effect. -/
theorem tryWrite_refused {target : ContainerId} {key : Key} {value : Value} {fault : ReactiveFault}
    {written : Store} (refused : world.store.put target key value = (.error fault, written)) :
    (TaskM.tryWrite target key value).Ends runner world (.ok (.error fault))
      { world with store := written } := by
  intro next
  simp only [TaskM.tryWrite, World.interpret, World.write, refused]

/-- A block in which reads count for no effect ends where the block ends. -/
theorem untracked {tracker : TrackerId} {block : TaskM σ Value} {result : Except Fault Value}
    (ends : block.Ends runner (world.enter tracker none) result after) :
    (TaskM.untracked tracker block).Ends runner world result (after.leave tracker) := by
  intro next
  have ran : World.interpret runner block.toTask (world.enter tracker none) = (result, after) :=
    ends .done
  simp only [TaskM.untracked, World.interpret, ran]

end TaskM.Ends

namespace Chart

variable {κ : Type} {binder : Binder} {side : ElementId → κ} {chart more : Chart binder side} {k : κ}

/-! ## Triples -/

/-- Whether a computation that is run on a side keeps to it and yields something good.  It may end
with a fault. -/
def Keeps (runner : World.Runner Page) (k : κ) {α : Type} (chart : Chart binder side)
    (computation : TaskM Page α) (good : Chart binder side → α → Prop) : Prop :=
  ∀ world, chart.Fits world → chart.Framed k world →
    ∃ (result : Except Fault α) (after : World Page) (more : Chart binder side),
      computation.Ends runner world result after ∧ more.Fits after ∧
        Spares k chart world more after ∧ ∀ a, result = .ok a → good more a

/-- Whether a computation that is run on a side keeps to it and ends without a fault. -/
def Completes (runner : World.Runner Page) (k : κ) {α : Type} (chart : Chart binder side)
    (computation : TaskM Page α) (good : Chart binder side → α → Prop) : Prop :=
  ∀ world, chart.Fits world → chart.Framed k world →
    ∃ (a : α) (after : World Page) (more : Chart binder side),
      computation.Ends runner world (.ok a) after ∧ more.Fits after ∧
        Spares k chart world more after ∧ good more a

/-- Whether the runs of effects keep to the sides that the effects are of. -/
def KeepsRuns (binder : Binder) (side : ElementId → κ) (runner : World.Runner Page) : Prop :=
  ∀ (chart : Chart binder side) (k : κ) (effect : EffectId) (world : World Page),
    chart.Fits world → chart.Of k effect →
      ∃ more : Chart binder side, more.Fits (runner ⟨0⟩ effect world).2 ∧
        Spares k chart world more (runner ⟨0⟩ effect world).2

variable {runner : World.Runner Page} {α β : Type} {good better : Chart binder side → α → Prop}
  {goodNext : Chart binder side → β → Prop} {computation : TaskM Page α}

theorem Keeps.pure {a : α} (holds : good chart a) : chart.Keeps runner k (Pure.pure a) good :=
  fun world fits _ => ⟨.ok a, world, chart, .pure a world, fits, .refl k chart world,
    fun _ same => Except.ok.inj same ▸ holds⟩

theorem Keeps.ofExcept (result : Except Fault α) (holds : ∀ a, result = .ok a → good chart a) :
    chart.Keeps runner k (TaskM.ofExcept result) good :=
  fun world fits _ => ⟨result, world, chart, .ofExcept result world, fits, .refl k chart world, holds⟩

theorem Keeps.fail (fault : Fault) : chart.Keeps runner k (TaskM.fail fault) good :=
  .ofExcept (.error fault) fun _ same => nomatch same

theorem Keeps.bind {next : α → TaskM Page β} (keeps : chart.Keeps runner k computation good)
    (later : ∀ more a, chart.Le more → good more a → more.Keeps runner k (next a) goodNext) :
    chart.Keeps runner k (computation >>= next) goodNext := by
  intro world fits framed
  obtain ⟨result, between, more, ends, fitsBetween, spares, holds⟩ := keeps world fits framed
  cases result with
  | error fault =>
      exact ⟨.error fault, between, more, ends.bind_error, fitsBetween, spares,
        fun _ same => nomatch same⟩
  | ok a =>
      obtain ⟨result, after, most, endsLater, fitsAfter, sparesLater, holdsNext⟩ :=
        later more a spares.le (holds a rfl) between fitsBetween
          (framed.mono spares.le (spares.stack _))
      exact ⟨result, after, most, ends.bind endsLater, fitsAfter, spares.trans sparesLater, holdsNext⟩

theorem Keeps.imp (keeps : chart.Keeps runner k computation good)
    (implies : ∀ more a, good more a → better more a) :
    chart.Keeps runner k computation better := by
  intro world fits framed
  obtain ⟨result, after, more, ends, fitsAfter, spares, holds⟩ := keeps world fits framed
  exact ⟨result, after, more, ends, fitsAfter, spares, fun a same => implies more a (holds a same)⟩

/-- An attempt ends without a fault; if it yields a value it is good. -/
theorem Keeps.attempt (keeps : chart.Keeps runner k computation good) :
    chart.Completes runner k computation.attempt
      fun more result => ∀ a, result = .ok a → good more a := by
  intro world fits framed
  obtain ⟨result, after, more, ends, fitsAfter, spares, holds⟩ := keeps world fits framed
  exact ⟨result, after, more, ends.attempt, fitsAfter, spares, holds⟩

theorem Completes.keeps (completes : chart.Completes runner k computation good) :
    chart.Keeps runner k computation good := by
  intro world fits framed
  obtain ⟨a, after, more, ends, fitsAfter, spares, holds⟩ := completes world fits framed
  exact ⟨.ok a, after, more, ends, fitsAfter, spares, fun _ same => Except.ok.inj same ▸ holds⟩

theorem Completes.pure {a : α} (holds : good chart a) :
    chart.Completes runner k (Pure.pure a) good :=
  fun world fits _ => ⟨a, world, chart, .pure a world, fits, .refl k chart world, holds⟩

theorem Completes.bind {next : α → TaskM Page β} (completes : chart.Completes runner k computation good)
    (later : ∀ more a, chart.Le more → good more a → more.Completes runner k (next a) goodNext) :
    chart.Completes runner k (computation >>= next) goodNext := by
  intro world fits framed
  obtain ⟨a, between, more, ends, fitsBetween, spares, holds⟩ := completes world fits framed
  obtain ⟨b, after, most, endsLater, fitsAfter, sparesLater, holdsNext⟩ :=
    later more a spares.le holds between fitsBetween (framed.mono spares.le (spares.stack _))
  exact ⟨b, after, most, ends.bind endsLater, fitsAfter, spares.trans sparesLater, holdsNext⟩

theorem Completes.imp (completes : chart.Completes runner k computation good)
    (implies : ∀ more a, good more a → better more a) :
    chart.Completes runner k computation better := by
  intro world fits framed
  obtain ⟨a, after, more, ends, fitsAfter, spares, holds⟩ := completes world fits framed
  exact ⟨a, after, more, ends, fitsAfter, spares, implies more a holds⟩

theorem Completes.see {observe : Dom Handler → α}
    (holds : ∀ page, chart.FitsPage page → good chart (observe page.dom)) :
    chart.Completes runner k (Page.see observe) good :=
  fun world fits _ => ⟨_, world, chart, .survey _ world, fits, .refl k chart world,
    holds _ fits.page⟩

theorem Keeps.look {observe : Heap → α} (holds : ∀ heap, chart.FitsHeap heap → good chart (observe heap)) :
    chart.Keeps runner k (TaskM.look observe) good :=
  fun world fits _ => ⟨_, world, chart, .look observe world, fits, .refl k chart world,
    fun _ same => Except.ok.inj same ▸ holds _ fits.heap⟩

theorem Keeps.see {observe : Dom Handler → α}
    (holds : ∀ page, chart.FitsPage page → good chart (observe page.dom)) :
    chart.Keeps runner k (Page.see observe) good :=
  fun world fits _ => ⟨_, world, chart, .survey _ world, fits, .refl k chart world,
    fun _ same => Except.ok.inj same ▸ holds _ fits.page⟩

/-! ## Steps that change only the reactive state -/

/-- Whether nothing was recorded between two charts but containers and functions. -/
structure Extends (chart more : Chart binder side) : Prop where
  le : chart.Le more
  bond : more.bond = chart.bond
  attributes : more.attributes = chart.attributes
  home : more.home = chart.home
  data : more.data = chart.data

theorem Extends.refl (chart : Chart binder side) : chart.Extends chart :=
  ⟨.refl chart, rfl, rfl, rfl, rfl⟩

theorem Extends.trans {most : Chart binder side} (extend : chart.Extends more)
    (later : more.Extends most) : chart.Extends most where
  le := extend.le.trans later.le
  bond := later.bond.trans extend.bond
  attributes := later.attributes.trans extend.attributes
  home := later.home.trans extend.home
  data := later.data.trans extend.data

/-- What a store may become in a step on a side. -/
structure Stores (chart : Chart binder side) (before : Store) (more : Chart binder side)
    (after : Store) : Prop where
  chart : chart.Extends more
  heap : more.FitsHeap after.heap
  readers : more.FitsReaders after
  runs : after.runs = before.runs
  trackers : after.trackers.size = before.trackers.size
  stack : ∀ id, (after.tracker id).stack = (before.tracker id).stack

theorem Stores.fits {world : World Page} {after : Store} (fits : chart.Fits world)
    (stores : Stores chart world.store more after) : more.Fits { world with store := after } where
  heap := stores.heap
  readers := stores.readers
  page := fits.page.mono stores.chart.le stores.chart.attributes stores.chart.home stores.chart.data
  effects :=
    { bodies := (fits.effects.mono stores.chart.le stores.chart.bond).bodies
      runs := (congrArg Array.size stores.runs).trans fits.effects.runs
      bonds := (fits.effects.mono stores.chart.le stores.chart.bond).bonds }

theorem Stores.spares {world : World Page} {after : Store}
    (stores : Stores chart world.store more after) :
    Spares k chart world more { world with store := after } where
  le := stores.chart.le
  data := stores.chart.data
  roots := rfl
  trackers := stores.trackers
  stack := stores.stack
  size := Nat.le_refl _
  home _ _ := by rw [stores.chart.home]
  face _ _ _ := rfl
  listed _ _ _ listed := listed
  heard _ _ member := member
  runs effect _ _ _ := by rw [Store.runCount, stores.runs, Store.runCount]

/-- A computation keeps to a side if all it does is a step of the store. -/
theorem Keeps.of_stores
    (steps : ∀ world, chart.Fits world → chart.Framed k world →
      ∃ (result : Except Fault α) (after : Store) (more : Chart binder side),
        computation.Ends runner world result { world with store := after } ∧
          Stores chart world.store more after ∧ ∀ a, result = .ok a → good more a) :
    chart.Keeps runner k computation good := by
  intro world fits framed
  obtain ⟨result, after, more, ends, stores, holds⟩ := steps world fits framed
  exact ⟨result, _, more, ends, stores.fits fits, stores.spares, holds⟩

theorem Stores.refl {store : Store} (heap : chart.FitsHeap store.heap)
    (readers : chart.FitsReaders store) : Stores chart store chart store :=
  ⟨.refl chart, heap, readers, rfl, rfl, fun _ => rfl⟩

/-- Who follows a property is told by the trackers, as all containers belong to one of them. -/
theorem FitsReaders.of_trackers {before after : Store} (fits : chart.FitsReaders before)
    (owner : ∀ id, before.heap.owner id = ⟨0⟩) (ownerAfter : ∀ id, after.heap.owner id = ⟨0⟩)
    (trackers : after.trackers = before.trackers) : chart.FitsReaders after := by
  intro access effect subscribed
  refine fits access effect ?_
  rw [Store.dependents_eq, owner]
  rw [Store.dependents_eq, ownerAfter, Store.registry_of_trackers trackers] at subscribed
  exact subscribed

/-- Reads on a side subscribe only effects of that side. -/
theorem FitsReaders.track {store : Store} (fits : chart.FitsReaders store)
    (owner : ∀ id, store.heap.owner id = ⟨0⟩)
    (framed : ∀ effect, (store.tracker ⟨0⟩).current = some effect → chart.Of k effect)
    {reads : Array Access} (inside : ∀ access ∈ reads, chart.container access.container = some k) :
    chart.FitsReaders (store.track reads) := by
  intro access effect subscribed
  rcases Store.mem_dependents_track.mp subscribed with old | ⟨read, _, running⟩
  · exact fits access effect old
  · rw [owner] at running
    exact ⟨k, inside access read, framed effect running⟩

theorem Stores.track {world : World Page} (fits : chart.Fits world) (framed : chart.Framed k world)
    {reads : Array Access} (inside : ∀ access ∈ reads, chart.container access.container = some k) :
    Stores chart world.store chart (world.store.track reads) where
  chart := .refl chart
  heap := by
    rw [Store.heap_track]
    exact fits.heap
  readers := fits.readers.track fits.heap.owner framed inside
  runs := Store.runs_track _ _
  trackers := Store.size_track _ _
  stack := Store.stack_tracker_track _ _

/-- A computation that only reads on a side subscribes only effects of that side. -/
theorem Keeps.watch {computation : Heap → Watch α}
    (stays : ∀ heap, chart.FitsHeap heap →
      Watch.Stays (fun id => chart.container id = some k) (good chart) (computation heap)) :
    chart.Keeps runner k (TaskM.watch computation) good := by
  refine .of_stores fun world fits framed => ?_
  have here := stays world.store.heap fits.heap
  refine ⟨_, _, chart, (TaskM.Yields.watch computation world.store).ends runner world rfl,
    .track fits framed fun access member => ?_, fun a same => ?_⟩
  · exact (here.reads #[] access member).resolve_left (Array.not_mem_empty access)
  · rw [← Except.ok.inj same]
    exact here.result #[]

theorem Keeps.has (id : ContainerId) (key : Key) :
    chart.Keeps runner k (TaskM.has id key) fun _ _ => True :=
  .of_stores fun world fits _ =>
    ⟨_, world.store, chart, (TaskM.Yields.has id key world.store).ends runner world rfl,
      .refl fits.heap fits.readers, fun _ _ => trivial⟩

theorem FitsReaders.report {store : Store} (fits : chart.FitsReaders store) (fault : Fault) :
    chart.FitsReaders (store.report ⟨0⟩ fault) := by
  intro access effect subscribed
  refine fits access effect ?_
  have same := Store.registry_modifyTracker store ⟨0⟩ (fun tracker => tracker.report fault)
    (fun _ => rfl) (store.heap.owner access.container) access
  rw [Store.dependents_eq, ← same]
  exact subscribed

theorem Stores.report {store : Store} (heap : chart.FitsHeap store.heap)
    (readers : chart.FitsReaders store) (fault : Fault) :
    Stores chart store chart (store.report ⟨0⟩ fault) :=
  ⟨.refl chart, heap, readers.report fault, rfl, Store.size_modifyTracker _ _ _,
    Store.stack_report store ⟨0⟩ fault⟩

theorem Completes.report (fault : Fault) :
    chart.Completes runner k (TaskM.report ⟨0⟩ fault) fun _ _ => True := by
  intro world fits _
  have stores := Stores.report fits.heap fits.readers fault
  exact ⟨(), _, chart, .report ⟨0⟩ fault world, stores.fits fits, stores.spares, trivial⟩

/-! ## Making things -/

/-- Records a container on a side. -/
def withContainer (chart : Chart binder side) (id : ContainerId) (k : κ) : Chart binder side :=
  { chart with container := fun other => if other = id then some k else chart.container other }

/-- Records a function on a side. -/
def withFunction (chart : Chart binder side) (id : FunctionId) (k : κ) : Chart binder side :=
  { chart with function := fun other => if other = id then some k else chart.function other }

theorem extends_withContainer {id : ContainerId} (new : chart.container id = none) (k : κ) :
    chart.Extends (chart.withContainer id k) where
  le :=
    { Le.refl chart with
      container := fun other on given => by
        have differs : other ≠ id := fun same => by simp [same ▸ given] at new
        simp only [withContainer, if_neg differs, given] }
  bond := rfl
  attributes := rfl
  home := rfl
  data := rfl

theorem extends_withFunction {id : FunctionId} (new : chart.function id = none) (k : κ) :
    chart.Extends (chart.withFunction id k) where
  le :=
    { Le.refl chart with
      function := fun other on given => by
        have differs : other ≠ id := fun same => by simp [same ▸ given] at new
        simp only [withFunction, if_neg differs, given] }
  bond := rfl
  attributes := rfl
  home := rfl
  data := rfl

theorem FitsHeap.new_container {heap : Heap} (fits : chart.FitsHeap heap) :
    chart.container ⟨heap.containers.size⟩ = none := by
  rw [← Option.not_isSome_iff_eq_none, fits.containers]
  exact Nat.lt_irrefl _

theorem FitsHeap.new_function {heap : Heap} (fits : chart.FitsHeap heap) :
    chart.function ⟨heap.closures.size⟩ = none := by
  rw [← Option.not_isSome_iff_eq_none, fits.functions]
  exact Nat.lt_irrefl _

/-- A container on a side is made of what lies on that side. -/
theorem FitsHeap.newContainer {heap : Heap} (fits : chart.FitsHeap heap) {contents : Contents}
    (held : ∀ value ∈ contents.values, chart.Held k value) :
    (chart.withContainer ⟨heap.containers.size⟩ k).FitsHeap (heap.newContainer ⟨0⟩ contents).2 := by
  have extend := extends_withContainer fits.new_container k
  have size : (heap.newContainer ⟨0⟩ contents).2.containers.size = heap.containers.size + 1 := by
    simp [Heap.newContainer]
  have found (id : ContainerId) : (heap.newContainer ⟨0⟩ contents).2.container id =
      if id.index = heap.containers.size then ⟨⟨0⟩, contents⟩ else heap.container id :=
    Heap.container_newContainer heap ⟨0⟩ contents id
  have new (id : ContainerId) : id = ⟨heap.containers.size⟩ ↔ id.index = heap.containers.size :=
    ⟨fun same => by rw [same], fun same => by cases id; simp_all⟩
  refine ⟨fun id => ?_, fits.functions, fun id => ?_, fun id on given value member => ?_,
    fun id on given code listed => (fits.closures id on given code listed).imp
      fun _ held => held.mono extend.le⟩
  · simp only [withContainer, size]
    split
    next same => simp [(new id).mp same]
    next differs =>
      have apart : id.index ≠ heap.containers.size := fun same => differs ((new id).mpr same)
      rw [fits.containers id]
      omega
  · rw [Heap.owner, found]
    split
    · rfl
    · exact fits.owner id
  · rw [Heap.contents, found] at member
    simp only [withContainer] at given
    by_cases same : id = ⟨heap.containers.size⟩
    · rw [if_pos same] at given
      rw [if_pos ((new id).mp same)] at member
      exact (Option.some.inj given ▸ held value member).mono extend.le
    · rw [if_neg same] at given
      rw [if_neg fun here => same ((new id).mpr here)] at member
      exact (fits.values id on given value member).mono extend.le

theorem FitsHeap.newClosure {heap : Heap} (fits : chart.FitsHeap heap) {code : Closure}
    (sees : chart.Sees k code.scope code.bindings) :
    (chart.withFunction ⟨heap.closures.size⟩ k).FitsHeap (heap.newClosure code).2 := by
  have extend := extends_withFunction fits.new_function k
  have new (id : FunctionId) : id = ⟨heap.closures.size⟩ ↔ id.index = heap.closures.size :=
    ⟨fun same => by rw [same], fun same => by cases id; simp_all⟩
  refine ⟨fits.containers, fun id => ?_, fits.owner,
    fun id on given value member => (fits.values id on given value member).mono extend.le,
    fun id on given other listed => ?_⟩
  · have size : (heap.newClosure code).2.closures.size = heap.closures.size + 1 := by
      simp [Heap.newClosure]
    simp only [withFunction, size]
    split
    next same => simp [(new id).mp same]
    next differs =>
      have apart : id.index ≠ heap.closures.size := fun same => differs ((new id).mpr same)
      rw [fits.functions id]
      omega
  · have found : (heap.newClosure code).2.closures[id.index]? =
        if id.index = heap.closures.size then some code else heap.closures[id.index]? :=
      Array.getElem?_push
    rw [found] at listed
    simp only [withFunction] at given
    by_cases same : id = ⟨heap.closures.size⟩
    · rw [if_pos same] at given
      rw [if_pos ((new id).mp same)] at listed
      obtain rfl := Option.some.inj given
      obtain rfl := Option.some.inj listed
      exact sees.imp fun _ held => held.mono extend.le
    · rw [if_neg same] at given
      rw [if_neg fun here => same ((new id).mpr here)] at listed
      exact (fits.closures id on given other listed).imp fun _ held => held.mono extend.le

/-- What there is belongs to the one tracker, so nothing is copied. -/
theorem FitsHeap.foreignTo {heap : Heap} (fits : chart.FitsHeap heap) (values : List Value) :
    heap.foreignTo ⟨0⟩ values = [] := by
  refine List.filterMap_eq_nil_iff.mpr fun value _ => ?_
  cases value with
  | container id => exact if_pos (fits.owner id)
  | _ => rfl

theorem FitsHeap.adopt {heap : Heap} (fits : chart.FitsHeap heap) (value : Value) :
    Heap.adopt ⟨0⟩ value heap = (value, heap) :=
  Heap.adopt_of_owner fun id _ => fits.owner id

/-- Making a container of what lies on a side yields one on that side. -/
theorem Keeps.make_container {request : Request} (contents : Contents)
    (made : ∀ store : Store, chart.FitsHeap store.heap →
      store.perform request = store.madeContainer ⟨0⟩ contents)
    (held : ∀ value ∈ contents.values, chart.Held k value) :
    chart.Keeps runner k (TaskM.make request) fun more value => more.Held k value := by
  refine .of_stores fun world fits _ => ?_
  have extend := extends_withContainer fits.heap.new_container k
  have heap := fits.heap.newContainer held
  have ends : (TaskM.make request).Ends runner world _ _ := .make request world
  rw [made world.store fits.heap] at ends
  refine ⟨_, _, chart.withContainer ⟨world.store.heap.containers.size⟩ k, ends,
    ⟨extend, heap, ?_, rfl, rfl, fun _ => rfl⟩, fun value same => ?_⟩
  · exact (fits.readers.mono extend.le).of_trackers fits.heap.owner heap.owner rfl
  · rw [← Except.ok.inj same]
    exact if_pos rfl

theorem Keeps.make_array {tracker : TrackerId} (owned : tracker = ⟨0⟩) {items : List Value}
    (held : ∀ item ∈ items, chart.Held k item) :
    chart.Keeps runner k (TaskM.make (.array tracker items)) fun more value => more.Held k value := by
  subst owned
  refine .make_container (.array items.toArray .empty)
    (fun store fits => Store.perform_array (fits.foreignTo items)) fun value member => held value ?_
  simpa [Contents.values, Assoc.empty] using member

theorem Keeps.make_object {tracker : TrackerId} (owned : tracker = ⟨0⟩)
    {entries : List (Key × Value)} (held : ∀ entry ∈ entries, chart.Held k entry.2) :
    chart.Keeps runner k (TaskM.make (.object tracker entries))
      fun more value => more.Held k value := by
  subst owned
  refine .make_container (.object (Assoc.ofList entries))
    (fun store fits => Store.perform_object (fits.foreignTo _)) fun value member => ?_
  obtain ⟨entry, listed, rfl⟩ := List.mem_map.mp member
  exact held entry (Assoc.mem_ofList listed)

theorem Keeps.make_closure {code : Closure} (sees : chart.Sees k code.scope code.bindings) :
    chart.Keeps runner k (TaskM.make (.closure code)) fun more value => more.Held k value := by
  refine .of_stores fun world fits _ => ?_
  have extend := extends_withFunction fits.heap.new_function k
  have heap := fits.heap.newClosure sees
  refine ⟨_, _, chart.withFunction ⟨world.store.heap.closures.size⟩ k,
    .make (.closure code) world, ⟨extend, heap, ?_, rfl, rfl, fun _ => rfl⟩, fun value same => ?_⟩
  · exact (fits.readers.mono extend.le).of_trackers fits.heap.owner heap.owner rfl
  · rw [← Except.ok.inj same]
    exact if_pos rfl

theorem Stores.amend {world : World Page} (fits : chart.Fits world) (id : EventId)
    (change : Event → Event) :
    Stores chart world.store chart (world.store.perform (.amend id change)).2 :=
  ⟨.refl chart, ⟨fits.heap.containers, fits.heap.functions, fits.heap.owner, fits.heap.values,
    fits.heap.closures⟩, fits.readers.of_trackers fits.heap.owner fits.heap.owner rfl, rfl, rfl,
    fun _ => rfl⟩

/-- Events hold nothing that lies on a side. -/
theorem Completes.make_amend (id : EventId) (change : Event → Event) :
    chart.Completes runner k (TaskM.make (.amend id change)) fun more value => more.Held k value :=
  fun world fits _ => ⟨_, _, chart, .make (.amend id change) world, (Stores.amend fits id change).fits fits,
    (Stores.amend fits id change).spares, trivial⟩

theorem Keeps.make_adopt {value : Value} (held : chart.Held k value) :
    chart.Keeps runner k (TaskM.make (.adopt ⟨0⟩ value)) fun more value => more.Held k value := by
  refine .of_stores fun world fits _ => ?_
  have ends : (TaskM.make (.adopt ⟨0⟩ value)).Ends runner world _ _ :=
    .make (.adopt ⟨0⟩ value) world
  have performed : world.store.perform (.adopt ⟨0⟩ value) = (value, world.store) := by
    simp only [Store.perform, Request.perform, fits.heap.adopt]
  rw [performed] at ends
  exact ⟨_, _, chart, ends, .refl fits.heap fits.readers,
    fun _ same => Except.ok.inj same ▸ held⟩

/-! ## Writes -/

theorem FitsHeap.setContents {heap : Heap} (fits : chart.FitsHeap heap) {id : ContainerId}
    (on : chart.container id = some k) {contents : Contents}
    (held : ∀ value ∈ contents.values, chart.Held k value) :
    chart.FitsHeap (heap.setContents id contents) where
  containers other := by
    rw [Heap.size_setContents]
    exact fits.containers other
  functions := fits.functions
  owner other := (Heap.owner_setContents heap id other contents).trans (fits.owner other)
  values other there given value member := by
    have known : id.index < heap.containers.size :=
      (fits.containers id).mp (Option.isSome_iff_exists.mpr ⟨k, on⟩)
    by_cases same : other = id
    · subst same
      rw [Heap.contents_setContents known] at member
      obtain rfl := Option.some.inj (given.symm.trans on)
      exact held value member
    · rw [Heap.contents_setContents_of_ne same] at member
      exact fits.values other there given value member
  closures := fits.closures

/-- Finding the length that a value names reads only on the side of the value. -/
theorem FitsHeap.putReads {store : Store} (fits : chart.FitsHeap store.heap) (id : ContainerId)
    (key : Key) {value : Value} (held : chart.Held k value) :
    ∀ access ∈ store.putReads id key value, chart.container access.container = some k := by
  intro access read
  simp only [Store.putReads, fits.owner, fits.adopt] at read
  split at read
  · have number := Heap.toNumber_stays (fits.encloses k) held.inside
    have shown := Heap.display_stays (fits.encloses k) held.inside
    simp only [Heap.lengthReads] at read
    split at read
    · exact (number.reads #[] access read).resolve_left (Array.not_mem_empty access)
    · rcases Array.mem_append.mp read with first | second
      · exact (number.reads #[] access first).resolve_left (Array.not_mem_empty access)
      · exact (shown.reads #[] access second).resolve_left (Array.not_mem_empty access)
  · exact absurd read (Array.not_mem_empty access)

theorem FitsHeap.put {store : Store} (fits : chart.FitsHeap store.heap) {id : ContainerId}
    (on : chart.container id = some k) (key : Key) {value : Value} (held : chart.Held k value) :
    chart.FitsHeap (store.put id key value).2.heap ∧
      (store.put id key value).2.runs = store.runs := by
  refine ⟨?_, Store.runs_put store id key value⟩
  obtain ⟨taken, heap, adopted, stored⟩ := Store.heap_put_cases store id key value
  -- nothing is copied: all containers of a page have one tracker
  rw [fits.owner, fits.adopt] at adopted
  obtain ⟨rfl, rfl⟩ := Prod.mk.inj adopted
  rcases stored with refused | ⟨contents, written, stored⟩
  · rw [refused]
    exact fits
  · rw [stored]
    refine fits.setContents on fun other member => ?_
    rcases written.mem_values member with old | rfl | rfl
    · exact fits.values id k on other old
    · exact held
    · exact held_of_isPlain trivial

/-- A write on a side, taken or refused, is a step on that side. -/
theorem Stores.put {world : World Page} (fits : chart.Fits world) (framed : chart.Framed k world)
    {id : ContainerId} (on : chart.container id = some k) (key : Key) {value : Value}
    (held : chart.Held k value) :
    Stores chart world.store chart (world.store.put id key value).2 where
  chart := .refl chart
  heap := (fits.heap.put on key held).1
  readers := by
    have heap := fits.heap.put on key held
    have tracked := fits.readers.track fits.heap.owner framed (fits.heap.putReads id key held)
    have trackers := Store.trackers_put world.store id key value
    rw [fits.heap.owner, fits.heap.adopt] at trackers
    refine tracked.of_trackers (fun other => ?_) heap.1.owner trackers
    rw [Store.heap_track]
    exact fits.heap.owner other
  runs := (fits.heap.put on key held).2
  trackers := (Store.put_grows world.store id key value).1.trackers
  stack := (Store.put_grows world.store id key value).2

theorem Stores.takeLast {world : World Page} (fits : chart.Fits world) {id : ContainerId}
    (on : chart.container id = some k) :
    Stores chart world.store chart (world.store.takeLast id).2.2 ∧
      chart.Held k (world.store.takeLast id).1 ∧
      ∀ access ∈ (world.store.takeLast id).2.1, access.container = id := by
  rcases Store.takeLast_cases world.store id with nothing | ⟨position, last, rest, popped, taken⟩
  · rw [nothing]
    exact ⟨.refl fits.heap fits.readers, trivial, fun _ listed => absurd listed List.not_mem_nil⟩
  · rw [taken]
    have heap := fits.heap.setContents on fun value member =>
      fits.heap.values id k on value (Contents.mem_values_pop popped member)
    refine ⟨⟨.refl chart, heap, fits.readers.of_trackers fits.heap.owner heap.owner rfl, rfl, rfl,
      fun _ => rfl⟩, fits.heap.values id k on last (Contents.mem_values_of_pop popped), ?_⟩
    intro access listed
    simp only [List.mem_cons, List.not_mem_nil, or_false] at listed
    rcases listed with rfl | rfl <;> rfl

/-! ## Runs of effects -/

section Runs

variable (runs : KeepsRuns binder side runner)

include runs

/-- Running effects of a side one after another keeps to it. -/
theorem KeepsRuns.fanOut {chart : Chart binder side} (effects : List EffectId) {world : World Page}
    (fits : chart.Fits world) (own : ∀ effect ∈ effects, chart.Of k effect) :
    ∃ more : Chart binder side, more.Fits (world.fanOut runner ⟨0⟩ effects) ∧
      Spares k chart world more (world.fanOut runner ⟨0⟩ effects) := by
  induction effects generalizing chart world with
  | nil => exact ⟨chart, fits, .refl k chart world⟩
  | cons effect rest ih =>
      rw [List.forall_mem_cons] at own
      obtain ⟨between, fitsBetween, spares⟩ := runs chart k effect world fits own.1
      rw [World.fanOut, List.foldl_cons]
      split
      next after result =>
        rw [result] at fitsBetween spares
        obtain ⟨more, fitsAfter, later⟩ := ih fitsBetween fun other member =>
          (own.2 other member).mono spares.le
        exact ⟨more, fitsAfter, spares.trans later⟩
      next fault after result =>
        rw [result] at fitsBetween spares
        have reported : Stores between after.store between (after.store.report ⟨0⟩ fault) :=
          .report fitsBetween.heap fitsBetween.readers fault
        obtain ⟨more, fitsAfter, later⟩ := ih (reported.fits fitsBetween) fun other member =>
          (own.2 other member).mono spares.le
        exact ⟨more, fitsAfter, (spares.trans reported.spares).trans later⟩

/-- The effects that depend on what lies on a side are of that side. -/
theorem KeepsRuns.trigger {chart : Chart binder side} {world : World Page} (fits : chart.Fits world)
    {access : Access} (on : chart.container access.container = some k) :
    ∃ more : Chart binder side, more.Fits (world.trigger runner access) ∧
      Spares k chart world more (world.trigger runner access) := by
  rw [World.trigger, fits.heap.owner]
  refine runs.fanOut _ fits fun effect subscribed => ?_
  obtain ⟨there, given, own⟩ := fits.readers access effect subscribed
  obtain rfl := Option.some.inj (given.symm.trans on)
  exact own

theorem KeepsRuns.triggerAll {chart : Chart binder side} (changed : List Access) {world : World Page}
    (fits : chart.Fits world)
    (on : ∀ access ∈ changed, chart.container access.container = some k) :
    ∃ more : Chart binder side, more.Fits (changed.foldl (World.trigger runner) world) ∧
      Spares k chart world more (changed.foldl (World.trigger runner) world) := by
  induction changed generalizing chart world with
  | nil => exact ⟨chart, fits, .refl k chart world⟩
  | cons access rest ih =>
      rw [List.forall_mem_cons] at on
      obtain ⟨between, fitsBetween, spares⟩ := runs.trigger fits on.1
      obtain ⟨more, fitsAfter, later⟩ := ih fitsBetween fun other member =>
        spares.le.container _ _ (on.2 other member)
      exact ⟨more, fitsAfter, spares.trans later⟩

/-- Writing on a side runs only effects of that side. -/
theorem Keeps.tryWrite {target : ContainerId} (on : chart.container target = some k) (key : Key)
    {value : Value} (held : chart.Held k value) :
    chart.Keeps runner k (TaskM.tryWrite target key value) fun _ _ => True := by
  intro world fits framed
  have stores := Stores.put fits framed on key held
  cases result : world.store.put target key value with
  | mk outcome written =>
  rw [result] at stores
  cases outcome with
  | error fault =>
      exact ⟨_, _, chart, .tryWrite_refused result, stores.fits fits, stores.spares,
        fun _ _ => trivial⟩
  | ok changed =>
      obtain ⟨put⟩ := Store.put_ok result
      obtain ⟨more, fitsAfter, spares⟩ := runs.triggerAll changed (stores.fits fits)
        fun access listed => by
          rw [put.container_of_mem listed]
          exact on
      exact ⟨_, _, more, .tryWrite result, fitsAfter, stores.spares.trans spares,
        fun _ _ => trivial⟩

theorem Keeps.pop {target : ContainerId} (on : chart.container target = some k) :
    chart.Keeps runner k (TaskM.pop target) fun more value => more.Held k value := by
  intro world fits framed
  obtain ⟨stores, held, told⟩ := Stores.takeLast fits on
  obtain ⟨more, fitsAfter, spares⟩ := runs.triggerAll _ (stores.fits fits) fun access listed => by
    rw [told access listed]
    exact on
  refine ⟨_, _, more, .pop target world, fitsAfter, stores.spares.trans spares, fun value same => ?_⟩
  rw [← Except.ok.inj same]
  exact held.mono spares.le

end Runs

/-! ## Frames -/

theorem stack_of_missing {store : Store} {id : TrackerId} (missing : ¬store.HasTracker id) :
    (store.tracker id).stack = [] := by
  rw [Store.tracker, Array.getElem?_eq_none (Nat.le_of_not_lt missing)]
  rfl

theorem Fits.enter {world : World Page} (fits : chart.Fits world) (frame : Option EffectId) :
    chart.Fits (world.enter ⟨0⟩ frame) where
  heap := fits.heap
  readers := by
    intro access effect subscribed
    refine fits.readers access effect ?_
    have same := Store.registry_modifyTracker world.store ⟨0⟩ (fun state => state.enter frame)
      (fun _ => rfl) (world.store.heap.owner access.container) access
    rw [Store.dependents_eq, ← same]
    exact subscribed
  page := fits.page
  effects := ⟨fits.effects.bodies, fits.effects.runs, fits.effects.bonds⟩

theorem Fits.leave {world : World Page} (fits : chart.Fits world) :
    chart.Fits (world.leave ⟨0⟩) where
  heap := fits.heap
  readers := by
    intro access effect subscribed
    refine fits.readers access effect ?_
    have same := Store.registry_modifyTracker world.store ⟨0⟩ Tracker.leave
      (fun _ => rfl) (world.store.heap.owner access.container) access
    rw [Store.dependents_eq, ← same]
    exact subscribed
  page := fits.page
  effects := ⟨fits.effects.bodies, fits.effects.runs, fits.effects.bonds⟩

/-- In a new frame reads count for the effect of that frame only. -/
theorem framed_enter (world : World Page) {frame : Option EffectId}
    (own : ∀ effect, frame = some effect → chart.Of k effect) :
    chart.Framed k (world.enter ⟨0⟩ frame) := by
  intro effect running
  rw [Tracker.current, World.stack_enter] at running
  split at running
  · exact own effect running
  next missing =>
    rw [stack_of_missing fun there => missing ⟨rfl, there⟩] at running
    contradiction

/-- What is done inside a frame is done from before it was opened until it is closed. -/
theorem Spares.within {world after : World Page} {frame : Option EffectId}
    (spares : Spares k chart (world.enter ⟨0⟩ frame) more after) :
    Spares k chart world more (after.leave ⟨0⟩) where
  le := spares.le
  data := spares.data
  roots := spares.roots
  trackers := by
    have opened := Store.size_modifyTracker world.store ⟨0⟩ fun state => state.enter frame
    exact (Store.size_modifyTracker after.store ⟨0⟩ Tracker.leave).trans
      (spares.trackers.trans opened)
  stack id := by
    have opened := Store.size_modifyTracker world.store ⟨0⟩ fun state => state.enter frame
    have known : after.store.HasTracker ⟨0⟩ ↔ world.store.HasTracker ⟨0⟩ := by
      rw [Store.HasTracker, Store.HasTracker, spares.trackers.trans opened]
    rw [World.stack_leave, spares.stack, World.stack_enter]
    by_cases here : id = ⟨0⟩ ∧ world.store.HasTracker ⟨0⟩
    · rw [if_pos here, if_pos ⟨here.1, known.mpr here.2⟩, List.tail_cons]
    · rw [if_neg here, if_neg fun both => here ⟨both.1, known.mp both.2⟩]
  size := spares.size
  home := spares.home
  face := spares.face
  listed := spares.listed
  heard := spares.heard
  runs := spares.runs

theorem Keeps.untracked {block : TaskM Page Value} {good : Chart binder side → Value → Prop}
    (keeps : chart.Keeps runner k block good) :
    chart.Keeps runner k (TaskM.untracked ⟨0⟩ block) good := by
  intro world fits _
  obtain ⟨result, after, more, ends, fitsAfter, spares, holds⟩ :=
    keeps (world.enter ⟨0⟩ none) (fits.enter none) (framed_enter world fun _ same => nomatch same)
  exact ⟨result, after.leave ⟨0⟩, more, ends.untracked, fitsAfter.leave, spares.within, holds⟩

/-! ## Evaluation -/

/-- What is read on a side lies on that side. -/
theorem FitsHeap.get {heap : Heap} (fits : chart.FitsHeap heap) {id : ContainerId}
    (on : chart.container id = some k) (key : Key) :
    Watch.Stays (fun id => chart.container id = some k) (chart.Held k) (heap.get id key) where
  result _ := by
    change chart.Held k (heap.peek id key)
    rcases (heap.contents id).lookup_cases key with member | plain | plain
    · exact fits.values id k on _ member
    · rw [Heap.peek, plain]
      trivial
    · rw [Heap.peek, plain]
      trivial
  reads := (Heap.get_stays (fits.encloses k) on key).reads

theorem FitsHeap.items {heap : Heap} (fits : chart.FitsHeap heap) {id : ContainerId}
    (on : chart.container id = some k) :
    Watch.Stays (fun id => chart.container id = some k) (fun items => ∀ item ∈ items, chart.Held k item)
      (heap.items id) := by
  unfold Heap.items
  cases heap.contents id with
  | object properties => exact .mapM _ _ fun key _ => fits.get on key
  | array items named =>
      exact (Heap.length_stays on).bind fun length _ =>
        .mapM _ _ fun position _ => fits.get on (.index position)

/-- Keeping to a side is a discipline. -/
def keeping (runs : KeepsRuns binder side runner) (k : κ) : Discipline Page where
  Stage := Chart binder side
  Later := Le
  Owned := (· = ⟨0⟩)
  Held chart := chart.Held k
  IsArray _ _ := True
  Keeps chart computation good := chart.Keeps runner k computation good
  held_of_plain := held_of_isPlain
  held_later le held := held.mono le
  isArray_later _ _ := trivial
  keeps_pure := .pure
  keeps_fail := .fail
  keeps_bind keeps later := keeps.bind later
  keeps_imp keeps implies := keeps.imp implies
  keeps_look holds := .look fun heap _ => holds heap
  keeps_typeName _ := .look fun _ _ _ _ _ => trivial
  keeps_has := .has
  keeps_get key on := .watch fun _ fits => fits.get on key
  keeps_items on := .watch fun _ fits => fits.items on
  keeps_coercion _ held stays := .watch fun heap fits =>
    stays heap _ (fits.encloses k) fun value member => (held value member).inside
  keeps_closure on := .look fun _ fits code given => fits.closures _ k on code given
  keeps_array owned held := .make_array owned held
  keeps_object owned held := .make_object owned fun entry member => (held entry member).2
  keeps_arrow _ _ sees := .make_closure sees
  keeps_amend id change := (Completes.make_amend id change).keeps
  keeps_tryWrite on _ held := .tryWrite runs on _ held
  keeps_pop on := .pop runs on

end Chart

end LiveMarkup
