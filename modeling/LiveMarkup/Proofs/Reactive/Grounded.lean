import LiveMarkup.Proofs.Heap.Reach
import LiveMarkup.Proofs.Reactive.Adequacy

/-!
# Work that refers only to what exists

A value refers to a container only if it was made, and whoever hands values on has been given them.
Work is grounded if that holds of all it names, whatever answers it gets on its way.  Grounded work
keeps containers closed: at no point of its run does a container hold what belongs to another
tracker.
-/

namespace LiveMarkup

/-- Whether a container is one of the first so many. -/
abbrev Below (size : Nat) (id : ContainerId) : Prop := id.index < size

/-- A value refers to nothing new in a greater heap. -/
theorem Value.In.grow {size more : Nat} {value : Value} (within : value.In (Below size))
    (le : size ≤ more) : value.In (Below more) :=
  within.mono fun _ below => Nat.lt_of_lt_of_le below le

/-! ## Heaps -/

section Heap

variable (known : TrackerId → Prop) (size : Nat)

/-- Whether a scope names a known tracker and data that exists. -/
structure Scope.Grounded (scope : Scope) : Prop where
  /-- New containers belong to a known tracker. -/
  tracker : known scope.tracker
  /-- The data is there. -/
  data : ∀ data, scope.data = some data → data.index < size

/-- Whether bindings have only values that exist. -/
def Bindings.Grounded (bindings : Bindings) : Prop :=
  ∀ entry ∈ bindings.entries, entry.2.In (Below size)

/-- Whether a function has seen only what exists. -/
structure Closure.Grounded (closure : Closure) : Prop where
  /-- The scope around it. -/
  scope : closure.scope.Grounded known size
  /-- The bindings around it. -/
  bindings : Bindings.Grounded size closure.bindings

/-- Whether a request hands over only what exists. -/
def Request.Grounded : Request → Prop
  | .object tracker entries => known tracker ∧ ∀ entry ∈ entries, entry.2.In (Below size)
  | .array tracker items => known tracker ∧ ∀ item ∈ items, item.In (Below size)
  | .adopt tracker value => known tracker ∧ value.In (Below size)
  | .data tracker _ => known tracker
  | .closure code => code.Grounded known size
  | .event _ | .amend _ _ => True

end Heap

variable {known : TrackerId → Prop} {size more : Nat}

theorem Scope.Grounded.grow {scope : Scope} (grounded : scope.Grounded known size)
    (le : size ≤ more) : scope.Grounded known more :=
  ⟨grounded.tracker, fun data same => Nat.lt_of_lt_of_le (grounded.data data same) le⟩

theorem Bindings.Grounded.grow {bindings : Bindings} (grounded : Bindings.Grounded size bindings)
    (le : size ≤ more) : Bindings.Grounded more bindings :=
  fun entry member => (grounded entry member).grow le

theorem Closure.Grounded.grow {closure : Closure} (grounded : closure.Grounded known size)
    (le : size ≤ more) : closure.Grounded known more :=
  ⟨grounded.scope.grow le, grounded.bindings.grow le⟩

theorem Request.Grounded.grow {request : Request} (grounded : request.Grounded known size)
    (le : size ≤ more) : request.Grounded known more := by
  cases request with
  | object tracker entries =>
      exact ⟨grounded.1, fun entry member => (grounded.2 entry member).grow le⟩
  | array tracker items => exact ⟨grounded.1, fun item member => (grounded.2 item member).grow le⟩
  | adopt tracker value => exact ⟨grounded.1, grounded.2.grow le⟩
  | data tracker json => exact grounded
  | closure code => exact Closure.Grounded.grow grounded le
  | event fresh => trivial
  | amend id change => trivial

namespace Heap

/-- Whether containers hold only what belongs to their own trackers, which are known, and functions
have seen only what is there. -/
structure Grounded (known : TrackerId → Prop) (heap : Heap) : Prop where
  /-- Containers hold only what belongs to their own trackers. -/
  closed : heap.Closed
  /-- The trackers are known. -/
  owned : heap.OwnedBy known
  /-- Functions have seen only what is there. -/
  closures : ∀ closure ∈ heap.closures, closure.Grounded known heap.containers.size

theorem Grounded.encloses {heap : Heap} (grounded : heap.Grounded known) :
    heap.Encloses (Below heap.containers.size) :=
  fun _ _ _ member => known_of_closed grounded.closed member

/-- Functions stay as they were, and what they have seen stays there. -/
theorem Grounded.of_closures {before after : Heap} (grounded : before.Grounded known)
    (closed : after.Closed) (owned : after.OwnedBy known)
    (size : before.containers.size ≤ after.containers.size)
    (same : after.closures = before.closures) : after.Grounded known :=
  ⟨closed, owned, fun closure member => (grounded.closures closure (same ▸ member)).grow size⟩

theorem supplied_of_grounded {heap : Heap} {request : Request}
    (grounded : request.Grounded known heap.containers.size) : heap.Supplied request := by
  cases request with
  | object tracker entries => exact grounded.2
  | array tracker items => exact grounded.2
  | adopt tracker value => exact grounded.2
  | data tracker json => trivial
  | closure code => trivial
  | event fresh => trivial
  | amend id change => trivial

theorem known_of_makesFor {request : Request} (grounded : request.Grounded known size)
    {tracker : TrackerId} (makes : MakesFor tracker request) : known tracker := by
  cases request with
  | object other entries => exact makes ▸ grounded.1
  | array other items => exact makes ▸ grounded.1
  | adopt other value => exact makes ▸ grounded.1
  | data other json => exact makes ▸ grounded
  | closure code => exact makes.elim
  | event fresh => exact makes.elim
  | amend id change => exact makes.elim

/-- Making something in a grounded heap answers with something that is there. -/
theorem answer_known {heap : Heap} {request : Request} (closed : heap.Closed)
    (supplied : heap.Supplied request) :
    (request.perform heap).2.Known (request.perform heap).1 := by
  cases request with
  | object tracker entries =>
      exact (Takes.buildObject (takes_adopt tracker) (adopt_allocates tracker) closed
        supplied).2.known
  | array tracker items =>
      exact (Takes.buildArray (takes_adopt tracker) (adopt_allocates tracker) closed
        supplied).2.known
  | adopt tracker value => exact (takes_adopt tracker heap value closed supplied).2.known
  | data tracker json => exact (ofJson_closed tracker json heap closed).2.known
  | closure code => exact fun id same => nomatch same
  | event fresh => exact fun id same => nomatch same
  | amend id change => exact fun id same => nomatch same

theorem closures_adopt (tracker : TrackerId) (value : Value) (heap : Heap) :
    (adopt tracker value heap).2.closures = heap.closures := by
  have stays : StaysWithNew tracker fun after => after.closures = heap.closures :=
    fun _ _ _ same => same
  exact Preserves.adopt stays value heap rfl

theorem Grounded.perform {heap : Heap} {request : Request} (grounded : heap.Grounded known)
    (supplied : request.Grounded known heap.containers.size) :
    (request.perform heap).2.Grounded known := by
  have closed := grounded.closed.perform (supplied_of_grounded supplied)
  have owned := grounded.owned.perform fun _ => known_of_makesFor supplied
  have size := (perform_allocates request heap).size_le
  have stays (tracker : TrackerId) :
      StaysWithNew tracker fun after => after.closures = heap.closures := fun _ _ _ same => same
  cases request with
  | object tracker entries =>
      have same := Preserves.newObject (stays tracker) entries heap rfl
      exact grounded.of_closures closed owned size same
  | array tracker items =>
      have same := Preserves.newArray (stays tracker) items heap rfl
      exact grounded.of_closures closed owned size same
  | adopt tracker value =>
      exact grounded.of_closures closed owned size (closures_adopt tracker value heap)
  | data tracker json =>
      have same := Preserves.ofJson (stays tracker) json heap rfl
      exact grounded.of_closures closed owned size same
  | closure code =>
      refine ⟨closed, owned, fun closure member => ?_⟩
      rcases Array.mem_push.mp member with old | rfl
      · exact grounded.closures closure old
      · exact supplied
  | event fresh => exact grounded.of_closures closed owned size rfl
  | amend id change => exact grounded.of_closures closed owned size rfl

end Heap

/-! ## Tasks -/

/-- Whether a task names only what exists when there are so many containers, whatever answers it
gets: trackers that are known, and containers that it was given or that were made since. -/
def Task.Grounded {σ : Type} (known : TrackerId → Prop) : Task σ → Nat → Prop
  | .done result, size => ∀ value, result = .ok value → value.In (Below size)
  | .look next, size => ∀ store : Store, size ≤ store.heap.containers.size →
      store.heap.Grounded known → (next store).Grounded known store.heap.containers.size
  | .has _ _ next, size => ∀ present, (next present).Grounded known size
  | .track _ next, size => next.Grounded known size
  | .make request next, size => request.Grounded known size ∧
      ∀ more value, size ≤ more → value.In (Below more) → (next value).Grounded known more
  | .write target _ value next, size => target.index < size ∧ value.In (Below size) ∧
      ∀ more result, size ≤ more → (next result).Grounded known more
  | .pop target next, size => target.index < size ∧
      ∀ more value, size ≤ more → value.In (Below more) → (next value).Grounded known more
  | .define body next, size => body.Grounded known size ∧
      ∀ effect, (next effect).Grounded known size
  | .run tracker _ next, size => known tracker ∧
      ∀ more result, size ≤ more → (next result).Grounded known more
  | .untracked _ block next, size => block.Grounded known size ∧
      ∀ more outcome, size ≤ more → (∀ value, outcome = .ok value → value.In (Below more)) →
        (next outcome).Grounded known more
  | .report _ _ next, size => next.Grounded known size
  | .drain _ next, size => ∀ faults, (next faults).Grounded known size
  | .survey next, size => ∀ surroundings, (next surroundings).Grounded known size
  | .alter _ next, size => next.Grounded known size

variable {σ : Type}

/-- What exists goes on existing. -/
theorem Task.Grounded.grow {task : Task σ} (grounded : task.Grounded known size)
    (le : size ≤ more) : task.Grounded known more := by
  induction task generalizing size more with
  | done result => exact fun value same => (grounded value same).grow le
  | look next ih => exact fun store enough => grounded store (Nat.le_trans le enough)
  | has target key next ih => exact fun present => ih present (grounded present) le
  | track reads next ih => exact ih grounded le
  | make request next ih =>
      exact ⟨grounded.1.grow le,
        fun most value enough => grounded.2 most value (Nat.le_trans le enough)⟩
  | write target key value next ih =>
      obtain ⟨there, within, later⟩ := grounded
      exact ⟨Nat.lt_of_lt_of_le there le, within.grow le,
        fun most result enough => later most result (Nat.le_trans le enough)⟩
  | pop target next ih =>
      exact ⟨Nat.lt_of_lt_of_le grounded.1 le,
        fun most value enough => grounded.2 most value (Nat.le_trans le enough)⟩
  | define body next ihBody ih =>
      exact ⟨ihBody grounded.1 le, fun effect => ih effect (grounded.2 effect) le⟩
  | run tracker effect next ih =>
      exact ⟨grounded.1, fun most result enough => grounded.2 most result (Nat.le_trans le enough)⟩
  | untracked tracker block next ihBlock ih =>
      exact ⟨ihBlock grounded.1 le,
        fun most outcome enough => grounded.2 most outcome (Nat.le_trans le enough)⟩
  | report tracker fault next ih => exact ih grounded le
  | drain tracker next ih => exact fun faults => ih faults (grounded faults) le
  | survey next ih => exact fun surroundings => ih surroundings (grounded surroundings) le
  | alter change next ih => exact ih grounded le

/-- Whether work names only what exists when there are so many containers. -/
def Work.Grounded (known : TrackerId → Prop) (size : Nat) : Work σ → Prop
  | .task code => code.Grounded known size
  | .attempt tracker _ => known tracker
  | .attempts tracker _ => known tracker
  | .tell _ => True

/-! ## Computations -/

/-- Whether a computation names only what exists when there are so many containers, and yields
something good, if what comes after it goes on with such. -/
def TaskM.Grounded {α : Type} (known : TrackerId → Prop) (size : Nat) (good : Nat → α → Prop)
    (computation : TaskM σ α) : Prop :=
  ∀ next : Except Fault α → Task σ,
    (∀ more result, size ≤ more → (∀ a, result = .ok a → good more a) →
      (next result).Grounded known more) →
      (computation next).Grounded known size

/-- Whether a value refers only to the first so many containers. -/
abbrev Value.Fits (size : Nat) (value : Value) : Prop := value.In (Below size)

namespace TaskM

variable {α β : Type} {good : Nat → α → Prop} {goodNext : Nat → β → Prop}

theorem Grounded.toTask {body : TaskM σ Value} (grounded : body.Grounded known size Value.Fits) :
    body.toTask.Grounded known size :=
  grounded .done fun _ _ _ fits => fits

theorem Grounded.bind {computation : TaskM σ α} {next : α → TaskM σ β}
    (grounded : computation.Grounded known size good)
    (later : ∀ more a, size ≤ more → good more a → (next a).Grounded known more goodNext) :
    (computation >>= next).Grounded known size goodNext := by
  intro finish closed
  refine grounded _ fun more result le fits => ?_
  cases result with
  | error fault => exact closed more _ le fun _ same => nomatch same
  | ok a =>
      exact later more a le (fits a rfl) finish
        fun most result enough => closed most result (Nat.le_trans le enough)

theorem grounded_pure {a : α} (holds : good size a) :
    (Pure.pure a : TaskM σ α).Grounded known size good :=
  fun _ closed => closed size _ (Nat.le_refl _) fun _ same => Except.ok.inj same ▸ holds

theorem grounded_fail (fault : Fault) : (fail fault : TaskM σ α).Grounded known size good :=
  fun _ closed => closed size _ (Nat.le_refl _) fun _ same => nomatch same

theorem grounded_ofExcept {result : Except Fault α} (fits : ∀ a, result = .ok a → good size a) :
    (ofExcept result : TaskM σ α).Grounded known size good :=
  fun _ closed => closed size _ (Nat.le_refl _) fits

theorem grounded_look {observe : Heap → α}
    (holds : ∀ heap : Heap, size ≤ heap.containers.size → heap.Grounded known →
      good heap.containers.size (observe heap)) :
    (look observe : TaskM σ α).Grounded known size good :=
  fun _ closed store le grounded =>
    closed _ _ le fun _ same => Except.ok.inj same ▸ holds store.heap le grounded

/-- A computation that only reads yields what its reads lead to. -/
theorem grounded_watch {computation : Heap → Watch α}
    (stays : ∀ heap : Heap, size ≤ heap.containers.size → heap.Grounded known →
      Watch.Stays (Below heap.containers.size) (good heap.containers.size) (computation heap)) :
    (watch computation : TaskM σ α).Grounded known size good := by
  intro next closed store le grounded
  refine closed store.heap.containers.size _ le fun a same => ?_
  rw [← Except.ok.inj same]
  exact (stays store.heap le grounded).result #[]

theorem grounded_has (target : ContainerId) (key : Key) :
    (has target key : TaskM σ Bool).Grounded known size fun _ _ => True :=
  fun _ closed _ => closed size _ (Nat.le_refl _) fun _ _ => trivial

theorem grounded_make {request : Request} (grounded : request.Grounded known size) :
    (make request : TaskM σ Value).Grounded known size Value.Fits :=
  fun _ closed => ⟨grounded, fun more _ le fits =>
    closed more _ le fun _ same => Except.ok.inj same ▸ fits⟩

theorem grounded_tryWrite {target : ContainerId} (there : target.index < size) (key : Key)
    {value : Value} (fits : value.Fits size) :
    (tryWrite target key value : TaskM σ _).Grounded known size fun _ _ => True :=
  fun _ closed => ⟨there, fits, fun more _ le => closed more _ le fun _ _ => trivial⟩

theorem grounded_pop {target : ContainerId} (there : target.index < size) :
    (pop target : TaskM σ Value).Grounded known size Value.Fits :=
  fun _ closed => ⟨there, fun more _ le fits =>
    closed more _ le fun _ same => Except.ok.inj same ▸ fits⟩

theorem grounded_report (tracker : TrackerId) (fault : Fault) :
    (report tracker fault : TaskM σ Unit).Grounded known size fun _ _ => True :=
  fun _ closed => closed size _ (Nat.le_refl _) fun _ _ => trivial

theorem grounded_tryRun {tracker : TrackerId} (there : known tracker) (effect : EffectId) :
    (tryRun tracker effect : TaskM σ _).Grounded known size fun _ _ => True :=
  fun _ closed => ⟨there, fun more _ le => closed more _ le fun _ _ => trivial⟩

theorem Grounded.createEffect {body : TaskM σ Value} {tracker : TrackerId}
    (grounded : body.Grounded known size Value.Fits) (there : known tracker) :
    (createEffect tracker body).Grounded known size fun _ _ => True := by
  have defined : (define body).Grounded known size fun _ _ => True := fun _ closed =>
    ⟨grounded.toTask, fun _ => closed size _ (Nat.le_refl _) fun _ _ => trivial⟩
  refine defined.bind fun more effect _ _ => ?_
  refine (grounded_tryRun there effect).bind fun most result _ _ => ?_
  cases result with
  | ok done => exact grounded_pure trivial
  | error fault => exact (grounded_report tracker fault).bind fun _ _ _ _ => grounded_pure trivial

theorem grounded_set {target : ContainerId} (there : target.index < size) (key : Key)
    {value : Value} (fits : value.Fits size) :
    (set target key value : TaskM σ Unit).Grounded known size fun _ _ => True := by
  refine (grounded_tryWrite there key fits).bind fun more result _ _ => ?_
  cases result with
  | ok done => exact grounded_pure trivial
  | error fault =>
      have owner : (look fun heap => heap.owner target : TaskM σ TrackerId).Grounded known more
          fun _ _ => True := grounded_look fun _ _ _ => trivial
      exact owner.bind fun _ owner _ _ => grounded_report owner _

theorem grounded_push {target : ContainerId} (there : target.index < size) {value : Value}
    (fits : value.Fits size) :
    (push target value : TaskM σ Nat).Grounded known size fun _ _ => True := by
  have contents : (look fun heap => heap.contents target : TaskM σ Contents).Grounded known size
      fun _ _ => True := grounded_look fun _ _ _ => trivial
  refine contents.bind fun more contents le _ => ?_
  cases contents with
  | object properties => exact grounded_pure trivial
  | array items named =>
      refine (grounded_set (Nat.lt_of_lt_of_le there le) _ (fits.grow le)).bind fun _ _ _ _ => ?_
      exact grounded_pure trivial

end TaskM

/-! ## Writes -/

namespace Store

variable {store : Store}

/-- A write of a value that is there to a container that is there leaves the heap grounded, whether
it is taken or refused. -/
theorem grounded_put (grounded : store.heap.Grounded known) {id : ContainerId} (key : Key)
    {value : Value} (there : id.index < store.heap.containers.size)
    (within : value.In (Below store.heap.containers.size)) :
    (store.put id key value).2.heap.Grounded known := by
  have owned := ownedBy_put grounded.owned id key value
  have size := (put_grows store id key value).1.heap.size_le
  cases result : store.put id key value with
  | mk outcome after =>
  rw [result] at owned size
  cases outcome with
  | error fault =>
      have request : Request.Grounded known store.heap.containers.size
          (.adopt (store.heap.owner id) value) := ⟨grounded.owned id, within⟩
      obtain ⟨reads, rfl⟩ := put_error result
      rw [heap_track]
      exact grounded.perform request
  | ok changed =>
      obtain ⟨put⟩ := put_ok result
      refine grounded.of_closures (put.closed grounded.closed there within) owned size ?_
      have same := Heap.closures_adopt (store.heap.owner id) value store.heap
      rw [put.adopted] at same
      rw [put.after_heap]
      exact same

theorem grounded_takeLast (grounded : store.heap.Grounded known) {id : ContainerId}
    (there : id.index < store.heap.containers.size) :
    (store.takeLast id).2.2.heap.Grounded known ∧
      (store.takeLast id).1.In (Below store.heap.containers.size) := by
  have closed := takeLast_closed grounded.closed there
  have owned := ownedBy_takeLast grounded.owned id
  have size := (takeLast_grows store id).1.heap.size_le
  rcases takeLast_cases store id with nothing | ⟨position, last, rest, popped, taken⟩
  · rw [nothing]
    exact ⟨grounded, fun _ same => nomatch same⟩
  · rw [taken] at closed owned size ⊢
    refine ⟨grounded.of_closures closed owned size rfl, ?_⟩
    exact grounded.encloses id there last (Contents.mem_values_of_pop popped)

end Store

/-! ## Runs -/

/-- Whether everything in a world refers only to what exists. -/
structure World.Grounded (world : World σ) : Prop where
  /-- What is in the heap. -/
  heap : world.store.heap.Grounded world.store.HasTracker
  /-- What the effects do. -/
  bodies : ∀ body ∈ world.bodies,
    body.Grounded world.store.HasTracker world.store.heap.containers.size

namespace World

theorem Grounded.of_heap {world after : World σ} (grounded : world.Grounded)
    (trackers : after.store.HasTracker = world.store.HasTracker)
    (heap : after.store.heap.Grounded world.store.HasTracker)
    (size : world.store.heap.containers.size ≤ after.store.heap.containers.size)
    (bodies : after.bodies = world.bodies) : after.Grounded := by
  refine ⟨trackers ▸ heap, fun body member => ?_⟩
  rw [bodies] at member
  rw [trackers]
  exact (grounded.bodies body member).grow size

theorem Grounded.body {world : World σ} (grounded : world.Grounded) (effect : EffectId) :
    (world.body effect).Grounded world.store.HasTracker world.store.heap.containers.size := by
  rw [World.body]
  cases given : world.bodies[effect.index]? with
  | none => exact fun value same => Except.ok.inj same ▸ Value.in_of_plain (by simp)
  | some body => exact grounded.bodies body (Array.mem_of_getElem? given)

end World

namespace Point

open World

/-- Whether what there is and what is to be done refer only to what exists. -/
structure Grounded (point : Point σ) : Prop where
  /-- What there is. -/
  world : point.world.Grounded
  /-- What is to be done. -/
  work : point.work.Grounded point.world.store.HasTracker point.world.store.heap.containers.size

theorem Grounded.goes {point next : Point σ} (grounded : point.Grounded) (goes : point.Goes next) :
    next.Grounded := by
  have trackers := goes.extends_.hasTracker
  have size := goes.extends_.store.heap.size_le
  obtain ⟨world, work⟩ := grounded
  cases goes with
  | look => exact ⟨world, work _ (Nat.le_refl _) world.heap⟩
  | has => exact ⟨world, work _⟩
  | @track _ reads _ before =>
      have heap : (before.mapStore fun store => store.track reads).store.heap = before.store.heap :=
        Store.heap_track _ _
      refine ⟨world.of_heap trackers (heap ▸ world.heap) size rfl, ?_⟩
      rw [trackers, heap]
      exact work
  | make =>
      refine ⟨world.of_heap trackers (world.heap.perform work.1) size rfl, ?_⟩
      rw [trackers]
      exact work.2 _ _ size (Heap.answer_known world.heap.closed (Heap.supplied_of_grounded work.1))
  | @refuse _ target key value _ _ _ _ refused =>
      have heap := Store.grounded_put world.heap key work.1 work.2.1
      rw [refused] at heap
      refine ⟨world.of_heap trackers heap size rfl, ?_⟩
      rw [trackers]
      exact work.2.2 _ _ size
  | define =>
      refine ⟨⟨world.heap, fun body member => ?_⟩, work.2 _⟩
      rcases Array.mem_push.mp member with old | rfl
      · exact world.bodies body old
      · exact work.1
  | report => exact ⟨world.of_heap trackers world.heap size rfl, trackers ▸ work⟩
  | drain => exact ⟨world.of_heap trackers world.heap size rfl, trackers ▸ work _⟩
  | survey => exact ⟨world, work _⟩
  | alter => exact ⟨world.of_heap trackers world.heap size rfl, work⟩

theorem Grounded.calls {point callee : Point σ} {resume : Except Fault Value → World σ → Point σ}
    (grounded : point.Grounded) (calls : point.Calls callee resume) : callee.Grounded := by
  have trackers := calls.grows.hasTracker
  have size := calls.grows.heap.size_le
  obtain ⟨world, work⟩ := grounded
  cases calls with
  | @write _ target key value _ before _ store accepted =>
      have heap := Store.grounded_put world.heap key work.1 work.2.1
      rw [accepted] at heap
      exact ⟨world.of_heap trackers heap size rfl, trivial⟩
  | @pop _ target _ before =>
      have heap := (Store.grounded_takeLast world.heap work.1).1
      exact ⟨world.of_heap trackers heap size rfl, trivial⟩
  | run => exact ⟨world, work.1⟩
  | untracked => exact ⟨world.of_heap trackers world.heap size rfl, trackers ▸ work.1⟩
  | @begin _ _ effect before =>
      exact ⟨world.of_heap trackers world.heap size rfl, trackers ▸ world.body effect⟩
  | attempts => exact ⟨world, work⟩
  | tell => exact ⟨world, world.heap.owned _⟩

/-- What a run leads to: a grounded world, and a result that exists in it. -/
def Leaves (result : Except Fault Value) (after : World σ) : Prop :=
  after.Grounded ∧ ∀ value, result = .ok value → value.In (Below after.store.heap.containers.size)

theorem Grounded.ends {point : Point σ} {result : Except Fault Value} {after : World σ}
    (grounded : point.Grounded) (ends : point.Ends result after) : Leaves result after := by
  refine ⟨ends.world_eq ▸ grounded.world, ?_⟩
  cases ends with
  | done => exact grounded.work
  | refused => exact fun value same => nomatch same
  | attempted => exact fun value same => Except.ok.inj same ▸ fun _ same => nomatch same
  | told => exact fun value same => Except.ok.inj same ▸ fun _ same => nomatch same

theorem Grounded.resumes {point callee : Point σ}
    {resume : Except Fault Value → World σ → Point σ} {outcome : Except Fault Value}
    {between : World σ} (grounded : point.Grounded) (calls : point.Calls callee resume)
    (inside : callee.world.Extends between) (last : Leaves outcome between) :
    (resume outcome between).Grounded := by
  have size := Nat.le_trans calls.grows.heap.size_le inside.store.heap.size_le
  have trackers : between.store.HasTracker = point.world.store.HasTracker :=
    inside.hasTracker.trans calls.grows.hasTracker
  obtain ⟨world, answer⟩ := last
  have left (tracker : TrackerId) :
      (between.leave tracker).store.HasTracker = between.store.HasTracker := by
    funext id
    rw [Store.HasTracker, leave, mapStore, Store.size_modifyTracker, Store.HasTracker]
  have work := grounded.work
  cases calls with
  | write => exact ⟨world, trackers ▸ work.2.2 _ _ size⟩
  | @pop _ target _ before =>
      have taken := (Store.grounded_takeLast grounded.world.heap work.1).2
      exact ⟨world, trackers ▸ work.2 _ _ size (taken.grow size)⟩
  | run => exact ⟨world, trackers ▸ work.2 _ _ size⟩
  | @untracked _ tracker block next before =>
      refine ⟨world.of_heap (left tracker) world.heap (Nat.le_refl _) rfl, ?_⟩
      rw [left, trackers]
      exact work.2 _ _ size answer
  | @begin _ tracker effect before =>
      refine ⟨world.of_heap (left tracker) world.heap (Nat.le_refl _) rfl, ?_⟩
      exact answer
  | @attempts _ tracker effect rest before =>
      have settled : (between.settle tracker outcome).store.heap = between.store.heap := by
        cases outcome <;> rfl
      have same := (settle_extends between tracker outcome).hasTracker
      refine ⟨world.of_heap same (settled ▸ world.heap) (Nat.le_of_eq (by rw [settled])) ?_, ?_⟩
      · cases outcome <;> rfl
      · rw [same, trackers]
        exact work
  | tell => exact ⟨world, trivial⟩

/-- Grounded work stays grounded at all points of its run. -/
theorem grounded_kept : Kept (σ := σ) Grounded Leaves where
  ends ends grounded := grounded.ends ends
  goes goes grounded := grounded.goes goes
  calls calls grounded := grounded.calls calls
  resumes calls grounded inside last := grounded.resumes calls inside last
  known grounded := grounded.work

end Point

end LiveMarkup
