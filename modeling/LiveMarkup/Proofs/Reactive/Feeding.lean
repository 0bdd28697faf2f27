import LiveMarkup.Expr.Method
import LiveMarkup.Proofs.Reactive.Additions

/-!
# Effects that only append

An effect that only reads and appends to one list stores its values behind the length that it has
found.  Effects that run in between may have made the list longer by then, so a value may replace
one of theirs, but no effect stores anything behind the end of the list or in front of the place
where the list ended when the first one of them ran.
-/

namespace LiveMarkup

variable {σ : Type}

/-- Whether a heap has come from another one by changes of the items of a list. -/
structure Heap.Refills (list : ContainerId) (named : Assoc Key Value) (before after : Heap) : Prop where
  /-- The list was there. -/
  known : list.index < before.containers.size
  /-- Nothing else has changed. -/
  changes : before.ChangesOnly list after
  /-- The list is an array with the same names. -/
  array : ∃ items, after.contents list = .array items named

namespace Heap

variable {list : ContainerId} {named : Assoc Key Value} {before between after : Heap}

/-- What is made leaves the list alone. -/
theorem Refills.grows (refills : before.Refills list named between) (grows : between.Grows after) :
    before.Refills list named after ∧ after.contents list = between.contents list := by
  obtain ⟨items, contents⟩ := refills.array
  have same : after.contents list = between.contents list :=
    congrArg Container.contents (grows.container list (known_of_array contents))
  exact ⟨⟨refills.known, refills.changes.trans (.of_grows grows), items, same.trans contents⟩, same⟩

/-- Items are replaced. -/
theorem Refills.setContents (refills : before.Refills list named between) (items : Array Value) :
    before.Refills list named (between.setContents list (.array items named)) ∧
      (between.setContents list (.array items named)).contents list = .array items named := by
  obtain ⟨old, contents⟩ := refills.array
  have stored : (between.setContents list (.array items named)).contents list = .array items named :=
    contents_setContents (known_of_array contents) _
  have kind : (Contents.array items named).isArray = between.isArray list := by
    rw [isArray, contents]
    rfl
  exact ⟨⟨refills.known, refills.changes.trans (.setContents kind), items, stored⟩, stored⟩

end Heap

/-! ## Bodies that only append -/

/-- Whether a task only reads and pushes onto a list, as long as nothing changes but the items of
that list.  If a condition holds, then it appends no two values by one call. -/
inductive Task.Feeds (heap : Heap) (list : ContainerId) (named : Assoc Key Value) (single : Prop) :
    Task σ → Prop
  | done (result : Except Fault Value) : Feeds heap list named single (.done result)
  | look {next : Store → Task σ}
      (each : ∀ store : Store, heap.Refills list named store.heap →
        Feeds heap list named single (next store)) : Feeds heap list named single (.look next)
  | has {target : ContainerId} {key : Key} {next : Bool → Task σ}
      (each : ∀ later : Heap, heap.Refills list named later →
        Feeds heap list named single (next (later.contains target key))) :
      Feeds heap list named single (.has target key next)
  | track {reads : Array Access} {next : Task σ} (later : Feeds heap list named single next) :
      Feeds heap list named single (.track reads next)
  | make {request : Request} {next : Value → Task σ}
      (each : ∀ value, Feeds heap list named single (next value)) :
      Feeds heap list named single (.make request next)
  | untracked {tracker : TrackerId} {block : Task σ} {next : Except Fault Value → Task σ}
      (inside : Feeds heap list named single block)
      (each : ∀ result, Feeds heap list named single (next result)) :
      Feeds heap list named single (.untracked tracker block next)
  | report {tracker : TrackerId} {fault : Fault} {next : Task σ}
      (later : Feeds heap list named single next) :
      Feeds heap list named single (.report tracker fault next)
  | drain {tracker : TrackerId} {next : List Fault → Task σ}
      (each : ∀ faults, Feeds heap list named single (next faults)) :
      Feeds heap list named single (.drain tracker next)
  | survey {next : σ → Task σ}
      (each : ∀ surroundings, Feeds heap list named single (next surroundings)) :
      Feeds heap list named single (.survey next)
  | alter {change : σ → σ} {next : Task σ} (later : Feeds heap list named single next) :
      Feeds heap list named single (.alter change next)
  /-- A value is appended; a refusal is reported. -/
  | push {value : Value} {next : Except Fault Nat → Task σ}
      (each : ∀ result, Feeds heap list named single (next result)) :
      Feeds heap list named single (TaskM.push list value next)
  /-- Values are appended by the method; a refusal is an error. -/
  | append {values : List Value} {method : TaskM σ Value} {next : Except Fault Value → Task σ}
      (called : Value.arrayMethod? list "push" values = some method)
      (once : single → values.length ≤ 1)
      (each : ∀ result, Feeds heap list named single (next result)) :
      Feeds heap list named single (method next)

/-- Less may be required of the calls. -/
theorem Task.Feeds.mono {heap : Heap} {list : ContainerId} {named : Assoc Key Value}
    {single other : Prop} {task : Task σ} (feeds : task.Feeds heap list named single)
    (fewer : other → single) : task.Feeds heap list named other := by
  induction feeds with
  | done result => exact .done result
  | look _ ih => exact .look ih
  | has _ ih => exact .has ih
  | track _ ih => exact .track ih
  | make _ ih => exact .make ih
  | untracked _ _ inside ih => exact .untracked inside ih
  | report _ ih => exact .report ih
  | drain _ ih => exact .drain ih
  | survey _ ih => exact .survey ih
  | alter _ ih => exact .alter ih
  | push _ ih => exact .push ih
  | append called once _ ih => exact .append called (fun holds => once (fewer holds)) ih

/-- Whether a task stores values in a list only, each at a place that fits the length that the list
has then, and does nothing else but read.  The list is known to have some length, and to have become
longer by what the task has stored. -/
def Task.Lays (heap : Heap) (list : ContainerId) (named : Assoc Key Value) (fits : Nat → Nat → Prop) :
    Task σ → Nat → Prop
  | .done _, _ => True
  | .look next, count => ∀ store : Store, heap.Refills list named store.heap →
      (store.heap.contents list).count = count → (next store).Lays heap list named fits count
  | .has target key next, count => ∀ later : Heap, heap.Refills list named later →
      (next (later.contains target key)).Lays heap list named fits count
  | .track _ next, count => next.Lays heap list named fits count
  | .make _ next, count => ∀ value, (next value).Lays heap list named fits count
  | .write target key _ next, count =>
      target = list ∧
      (∃ position, key = .index position ∧ fits position count ∧
        ∀ later, count ≤ later → position < later → (next (.ok ())).Lays heap list named fits later) ∧
      ∀ fault, (next (.error fault)).Lays heap list named fits count
  | .pop _ _, _ | .define _ _, _ | .run _ _ _, _ => False
  | .untracked _ block next, count => block.Lays heap list named fits count ∧
      ∀ result later, count ≤ later → (next result).Lays heap list named fits later
  | .report _ _ next, count => next.Lays heap list named fits count
  | .drain _ next, count => ∀ faults, (next faults).Lays heap list named fits count
  | .survey next, count => ∀ surroundings, (next surroundings).Lays heap list named fits count
  | .alter _ next, count => next.Lays heap list named fits count

/-- Whether a place lies behind the first items and not behind the end of a list.  If a condition
holds, then it is the end. -/
def Addition.Placed (base : Nat) (single : Prop) (position length : Nat) : Prop :=
  base ≤ position ∧ position ≤ length ∧ (single → position = length)

section Lays

variable {heap : Heap} {list : ContainerId} {named : Assoc Key Value} {base count : Nat}
  {single : Prop}

theorem Value.rest_eq_nil {value : Value} {rest : List Value} (once : (value :: rest).length ≤ 1) :
    rest = [] :=
  List.length_eq_zero_iff.mp (Nat.le_zero.mp (Nat.le_of_succ_le_succ once))

/-- The arguments of the method are stored behind each other. -/
theorem Value.appendAll_lays {values : List Value} {position : Nat} {next : Except Fault Nat → Task σ}
    (behind : base ≤ position) (inside : position ≤ count) (once : single → values.length ≤ 1)
    (atEnd : single → values ≠ [] → position = count)
    (each : ∀ result later, count ≤ later →
      (next result).Lays heap list named (Addition.Placed base single) later) :
    (Value.appendAll list position values next).Lays heap list named (Addition.Placed base single)
      count := by
  induction values generalizing position count with
  | nil => exact each _ count (Nat.le_refl _)
  | cons value rest ih =>
      refine ⟨rfl, ⟨position, rfl, ⟨behind, inside, fun holds => atEnd holds (by simp)⟩, ?_⟩, ?_⟩
      · intro later longer reached
        refine ih (Nat.le_succ_of_le behind) reached (fun holds => ?_) (fun holds some => ?_)
          fun result final more => each result final (Nat.le_trans longer more)
        · exact Nat.le_of_succ_le (once holds)
        · exact absurd (Value.rest_eq_nil (once holds)) some
      · exact fun fault => each _ count (Nat.le_refl _)

/-- A task that only appends lays its values behind the items that were there when it began. -/
theorem Task.Feeds.lays {task : Task σ} (feeds : task.Feeds heap list named single)
    (long : base ≤ count) : task.Lays heap list named (Addition.Placed base single) count := by
  induction feeds generalizing count with
  | done result => trivial
  | look _ ih => exact fun store refills _ => ih store refills long
  | has _ ih => exact fun later refills => ih later refills long
  | track _ ih => exact ih long
  | make _ ih => exact fun value => ih value long
  | untracked _ _ ihInside ih =>
      exact ⟨ihInside long, fun result later longer => ih result (Nat.le_trans long longer)⟩
  | report _ ih => exact ih long
  | drain _ ih => exact fun faults => ih faults long
  | survey _ ih => exact fun surroundings => ih surroundings long
  | alter _ ih => exact ih long
  | @push value next _ ih =>
      -- Nothing runs between the look at the length and the write, so the place is the end.
      intro store refills size
      obtain ⟨items, contents⟩ := refills.array
      rw [contents] at size
      obtain rfl : items.size = count := size
      dsimp only
      rw [contents]
      refine ⟨rfl, ⟨items.size, rfl, ⟨long, Nat.le_refl _, fun _ => rfl⟩, ?_⟩, ?_⟩
      · exact fun later longer _ => ih _ (Nat.le_trans long longer)
      · exact fun fault store _ _ => ih _ long
  | @append values method next called once _ ih =>
      obtain rfl := Option.some.inj called
      intro store refills size
      refine Value.appendAll_lays (size ▸ long) (Nat.le_of_eq size) once (fun _ _ => size) ?_
      intro result later longer
      cases result with
      | ok length => exact ih _ (Nat.le_trans long longer)
      | error fault => exact ih _ (Nat.le_trans long longer)

end Lays

/-! ## Worlds in which such effects run -/

/-- A change of a tracker that keeps its subscriptions changes nobody's. -/
theorem Store.dependents_modifyTracker (store : Store) (id : TrackerId) (change : Tracker → Tracker)
    (keeps : ∀ state access, (change state).dependents access = state.dependents access)
    (access : Access) : (store.modifyTracker id change).dependents access = store.dependents access :=
  congrArg Array.toList
    (tracker_modifyTracker_eq (fun state => state.dependents access) change
      (fun state => keeps state access) _)

namespace World

variable {start now after : World σ} {list : ContainerId} {named : Assoc Key Value} {single : Prop}

/-- Whether an effect is running, or its body only reads and pushes onto a list. -/
def Admits (start : World σ) (list : ContainerId) (named : Assoc Key Value) (single : Prop)
    (effect : EffectId) : Prop :=
  (start.store.tracker (start.store.heap.owner list)).isRunning effect = true ∨
    (start.body effect).Feeds start.store.heap list named single

/-- Whether whoever has read a list is running or only reads and pushes onto it. -/
def FedOnly (world : World σ) (list : ContainerId) (named : Assoc Key Value) (single : Prop) : Prop :=
  ∀ (access : Access) (effect : EffectId), access.container = list →
    effect ∈ world.store.dependents access → world.Admits list named single effect

theorem FedOnly.mono {other : Prop} (feeds : start.FedOnly list named single)
    (fewer : other → single) : start.FedOnly list named other :=
  fun access effect inside listed =>
    (feeds access effect inside listed).imp_right fun pushes => pushes.mono fewer

/-- What is true while effects run that only append to a list. -/
structure Fed (start : World σ) (list : ContainerId) (named : Assoc Key Value) (single : Prop)
    (now : World σ) : Prop where
  /-- Nothing has changed but the items of the list. -/
  heap : start.store.heap.Refills list named now.store.heap
  /-- No effect has been defined. -/
  bodies : now.bodies = start.bodies
  /-- What has been entered since then are effects that only append to the list. -/
  stack : ∃ above, (now.store.tracker (start.store.heap.owner list)).stack =
      above ++ (start.store.tracker (start.store.heap.owner list)).stack ∧
    ∀ effect, some effect ∈ above → (start.body effect).Feeds start.store.heap list named single
  /-- Whoever has read the list was running, or only appends to it. -/
  subscribed : ∀ (access : Access) (effect : EffectId), access.container = list →
    effect ∈ now.store.dependents access → start.Admits list named single effect

theorem FedOnly.fed {items : Array Value} (feeds : start.FedOnly list named single)
    (contents : start.store.heap.contents list = .array items named) :
    Fed start list named single start where
  heap := ⟨Heap.known_of_array contents, .of_grows (.refl _), items, contents⟩
  bodies := rfl
  stack := ⟨[], rfl, fun _ listed => absurd listed List.not_mem_nil⟩
  subscribed := feeds

namespace Fed

variable (fed : Fed start list named single now)

include fed

theorem admits_of_running {effect : EffectId}
    (running : (now.store.tracker (start.store.heap.owner list)).isRunning effect = true) :
    start.Admits list named single effect := by
  obtain ⟨above, stack, feeds⟩ := fed.stack
  rw [Tracker.isRunning, stack, List.contains_iff_mem, List.mem_append] at running
  rcases running with entered | before
  · exact .inr (feeds effect entered)
  · exact .inl (List.contains_iff_mem.mpr before)

theorem running_of_start {effect : EffectId}
    (running : (start.store.tracker (start.store.heap.owner list)).isRunning effect = true) :
    (now.store.tracker (start.store.heap.owner list)).isRunning effect = true := by
  obtain ⟨above, stack, -⟩ := fed.stack
  rw [Tracker.isRunning, List.contains_iff_mem] at running
  rw [Tracker.isRunning, stack, List.contains_iff_mem]
  exact List.mem_append_right above running

theorem owner_eq : now.store.heap.owner list = start.store.heap.owner list :=
  fed.heap.changes.keeps.owner list fed.heap.known

/-- A step that keeps the stacks, and at most lets running effects read, leads to such a world. -/
theorem of_step (heap : start.store.heap.Refills list named after.store.heap)
    (bodies : after.bodies = now.bodies)
    (stack : ∀ id, (after.store.tracker id).stack = (now.store.tracker id).stack)
    (subscribed : ∀ (access : Access) (effect : EffectId), access.container = list →
      effect ∈ after.store.dependents access → effect ∈ now.store.dependents access ∨
        (now.store.tracker (start.store.heap.owner list)).current = some effect) :
    Fed start list named single after where
  heap := heap
  bodies := bodies.trans fed.bodies
  stack := by
    obtain ⟨above, same, feeds⟩ := fed.stack
    exact ⟨above, (stack _).trans same, feeds⟩
  subscribed access effect inside listed := by
    rcases subscribed access effect inside listed with old | reading
    · exact fed.subscribed access effect inside old
    · exact fed.admits_of_running (Tracker.isRunning_of_current reading)

/-- The items of the list change, and things are made. -/
theorem of_heap {heap : Heap} (refills : start.store.heap.Refills list named heap) :
    Fed start list named single { now with store := { now.store with heap := heap } } := by
  refine fed.of_step refills rfl (fun _ => rfl) fun access effect inside listed => .inl ?_
  have owner : heap.owner list = start.store.heap.owner list :=
    refills.changes.keeps.owner list refills.known
  rw [Store.mem_dependents, inside] at listed ⊢
  change effect ∈ (now.store.tracker (heap.owner list)).dependents access at listed
  rw [fed.owner_eq, ← owner]
  exact listed

theorem track (reads : Array Access) :
    Fed start list named single (now.mapStore fun store => store.track reads) := by
  have heap : (now.store.track reads).heap = now.store.heap := Store.heap_track _ _
  refine fed.of_step (heap.symm ▸ fed.heap) rfl (Store.stack_tracker_track _ reads) ?_
  intro access effect inside listed
  rcases Store.mem_dependents_track.mp listed with old | ⟨-, -, reading⟩
  · exact .inl old
  · rw [inside, fed.owner_eq] at reading
    exact .inr reading

/-- Faults do not matter. -/
theorem modifyTracker (tracker : TrackerId) {change : Tracker → Tracker}
    (stack : ∀ state, (change state).stack = state.stack)
    (dependents : ∀ state access, (change state).dependents access = state.dependents access) :
    Fed start list named single
      (now.mapStore fun store => store.modifyTracker tracker change) := by
  refine fed.of_step fed.heap rfl (Store.tracker_modifyTracker_eq Tracker.stack change stack) ?_
  intro access effect _ listed
  exact .inl (Store.dependents_modifyTracker now.store tracker change dependents access ▸ listed)

/-- Something is entered that only appends to the list, or reads that count for nobody. -/
theorem enter (tracker : TrackerId) (frame : Option EffectId)
    (feeds : ∀ effect, frame = some effect →
      (start.body effect).Feeds start.store.heap list named single) :
    Fed start list named single (now.enter tracker frame) where
  heap := fed.heap
  bodies := fed.bodies
  stack := by
    obtain ⟨above, same, all⟩ := fed.stack
    rw [stack_enter]
    split
    · refine ⟨frame :: above, by rw [same]; rfl, fun effect listed => ?_⟩
      rcases List.mem_cons.mp listed with here | there
      · exact feeds effect here.symm
      · exact all effect there
    · exact ⟨above, same, all⟩
  subscribed access effect inside listed := by
    have same : (now.enter tracker frame).store.dependents access = now.store.dependents access :=
      Store.dependents_modifyTracker now.store tracker (fun state => state.enter frame)
        (fun _ _ => rfl) access
    exact fed.subscribed access effect inside (same ▸ listed)

/-- What has been entered is left again. -/
theorem leave {between : World σ} {tracker : TrackerId} (later : Fed start list named single between)
    (extends_ : now.Extends (between.leave tracker)) :
    Fed start list named single (between.leave tracker) where
  heap := later.heap
  bodies := later.bodies
  stack := by
    obtain ⟨above, same, feeds⟩ := fed.stack
    exact ⟨above, (extends_.stack _).trans same, feeds⟩
  subscribed access effect inside listed := by
    have same : (between.leave tracker).store.dependents access = between.store.dependents access :=
      Store.dependents_modifyTracker between.store tracker Tracker.leave (fun _ _ => rfl) access
    exact later.subscribed access effect inside (same ▸ listed)

end Fed

end World

/-! ## Runs -/

/-- Whether work stores values in a list only, which has some length. -/
def Work.Lays (start : World σ) (list : ContainerId) (named : Assoc Key Value) (single : Prop)
    (count : Nat) : Work σ → Prop
  | .task code =>
      code.Lays start.store.heap list named
        (Addition.Placed (start.store.heap.contents list).count single) count
  | .attempt tracker effect =>
      tracker = start.store.heap.owner list ∧ start.Admits list named single effect
  | .attempts tracker effects =>
      tracker = start.store.heap.owner list ∧ ∀ effect ∈ effects, start.Admits list named single effect
  | .tell changed => ∀ access ∈ changed, access.container = list

namespace Point

/-- What is true at the points of a run in which values are stored in a list only. -/
structure Laying (start : World σ) (list : ContainerId) (named : Assoc Key Value) (single : Prop)
    (items : Array Value) (point : Point σ) : Prop where
  /-- Only effects run that append to the list. -/
  fed : start.Fed list named single point.world
  /-- The items of the list. -/
  contents : point.world.store.heap.contents list = .array items named
  /-- The list has not become shorter. -/
  long : (start.store.heap.contents list).count ≤ items.size
  /-- What is to be done appends to the list. -/
  work : point.work.Lays start list named single items.size

variable {start : World σ} {list : ContainerId} {named : Assoc Key Value} {single : Prop}
  {items : Array Value} {point : Point σ}

theorem Laying.goes {next : Point σ} (laying : point.Laying start list named single items)
    (goes : point.Goes next) : next.Laying start list named single items := by
  obtain ⟨fed, contents, long, work⟩ := laying
  cases goes with
  | look => exact ⟨fed, contents, long, work _ fed.heap (congrArg Contents.count contents)⟩
  | has => exact ⟨fed, contents, long, work _ fed.heap⟩
  | @track _ reads _ world =>
      have heap : (world.store.track reads).heap = world.store.heap := Store.heap_track _ _
      exact ⟨fed.track reads, heap ▸ contents, long, work⟩
  | @make _ request _ world =>
      obtain ⟨refills, same⟩ := fed.heap.grows (Heap.perform_allocates request world.store.heap)
      exact ⟨fed.of_heap refills, same.trans contents, long, work _⟩
  | @refuse _ target key value _ world fault store refused =>
      obtain ⟨rfl, ⟨position, rfl, -, -⟩, each⟩ := work
      obtain ⟨refills, same⟩ := fed.heap.grows
        (Heap.perform_allocates (.adopt (world.store.heap.owner target) value) world.store.heap)
      rw [Store.put_item contents] at refused
      split at refused
      · cases refused
      · obtain ⟨-, rfl⟩ := Prod.mk.inj refused
        exact ⟨fed.of_heap refills, same.trans contents, long, each fault⟩
  | define => exact absurd work id
  | @report _ tracker fault =>
      exact ⟨fed.modifyTracker tracker (fun _ => rfl) fun _ _ => rfl, contents, long, work⟩
  | @drain _ tracker =>
      exact ⟨fed.modifyTracker tracker (fun _ => rfl) fun _ _ => rfl, contents, long, work _⟩
  | survey => exact ⟨fed, contents, long, work _⟩
  | alter =>
      exact ⟨fed.of_step fed.heap rfl (fun _ => rfl) fun _ _ _ => .inl, contents, long, work⟩

/-- Effects that are not running enter bodies that only append. -/
theorem Laying.feeds_of_free {frames : List Frame} {tracker : TrackerId} {effect : EffectId}
    {world : World σ}
    (laying : Laying start list named single items ⟨frames, .attempt tracker effect, world⟩)
    (free : world.refusal? tracker effect = none) :
    (start.body effect).Feeds start.store.heap list named single ∧
      world.body effect = start.body effect := by
  obtain ⟨rfl, admits⟩ := laying.work
  constructor
  · refine admits.resolve_left fun running => ?_
    have still := laying.fed.running_of_start running
    rw [World.refusal?, if_pos still] at free
    cases free
  · rw [World.body, laying.fed.bodies, World.body]

/-- A write that is taken stores its value, and its readers append behind it. -/
theorem Laying.write {frames : List Frame} {target : ContainerId} {key : Key} {value : Value}
    {next : Except ReactiveFault Unit → Task σ} {world : World σ} {changed : List Access} {store : Store}
    (laying : Laying start list named single items
      ⟨frames, .task (.write target key value next), world⟩)
    (accepted : world.store.put target key value = (.ok changed, store)) :
    ∃ between,
      Laying start list named single between ⟨frames, .tell changed, { world with store := store }⟩ ∧
      Addition.Fills (Addition.Placed (start.store.heap.contents list).count single) items
        (adds? list ⟨frames, .task (.write target key value next), world⟩).toList between ∧
      ∀ after final, start.Fed list named single after →
        after.store.heap.contents list = .array final named → between.size ≤ final.size →
          Laying start list named single final ⟨frames, .task (next (.ok ())), after⟩ := by
  obtain ⟨fed, contents, long, rfl, ⟨position, rfl, placed, later⟩, -⟩ := laying
  obtain ⟨put⟩ := Store.put_ok accepted
  have inside : ∀ access ∈ changed, access.container = target :=
    fun access listed => put.container_of_mem listed
  let taken := (world.store.perform (.adopt (world.store.heap.owner target) value)).1
  let stored := Contents.storeItem items position taken
  have size : stored.size = max items.size (position + 1) := Contents.size_storeItem _ _ _
  obtain ⟨made, -⟩ := fed.heap.grows
    (Heap.perform_allocates (.adopt (world.store.heap.owner target) value) world.store.heap)
  obtain ⟨refills, contentsNow⟩ := made.setContents stored
  have adds := adds?_write frames next accepted
  rw [Store.put_item contents] at accepted
  split at accepted
  next room =>
    obtain ⟨-, rfl⟩ := Prod.mk.inj accepted
    refine ⟨stored, ⟨fed.of_heap refills, contentsNow, by omega, inside⟩, ?_, ?_⟩
    · rw [adds]
      exact .cons (congrArg Contents.count contents) placed .nil
    · intro after final fedNow contentsThen longer
      exact ⟨fedNow, contentsThen, by omega, later final.size (by omega) (by omega)⟩
  next => cases accepted

/-- A call stores at most the value of its caller, and when it comes back the caller goes on. -/
theorem Laying.calls {callee : Point σ} {resume : Except Fault Value → World σ → Point σ}
    (laying : point.Laying start list named single items) (calls : point.Calls callee resume) :
    ∃ between, callee.Laying start list named single between ∧
      Addition.Fills (Addition.Placed (start.store.heap.contents list).count single) items
        (point.adds? list).toList between ∧
      ∀ outcome after final, callee.world.Extends after → start.Fed list named single after →
        after.store.heap.contents list = .array final named → between.size ≤ final.size →
          (resume outcome after).Laying start list named single final := by
  have ⟨fed, contents, long, work⟩ := laying
  have back (outcome : Except Fault Value) {after : World σ} (inside : callee.world.Extends after) :
      point.world.Extends (resume outcome after).world := calls.extends_ inside outcome
  cases calls with
  | write accepted =>
      obtain ⟨between, callee, stored, resumes⟩ := laying.write accepted
      exact ⟨between, callee, stored, fun _ after final _ => resumes after final⟩
  | pop => exact work.elim
  | run => exact work.elim
  | @untracked frames tracker block next world =>
      have entered := fed.enter tracker none fun effect same => by cases same
      refine ⟨items, ⟨entered, contents, long, work.1⟩, .nil, ?_⟩
      intro outcome after final inside fedNow contentsNow longer
      exact ⟨fed.leave fedNow (back outcome inside), contentsNow, by omega, work.2 outcome _ longer⟩
  | @begin frames tracker effect world free =>
      obtain ⟨feeds, body⟩ := laying.feeds_of_free free
      have counted : start.Fed list named single (world.mapStore fun store =>
          { store with runs := store.runs.modify effect.index (· + 1) }) :=
        fed.of_step fed.heap rfl (fun _ => rfl) fun _ _ _ => .inl
      have entered := counted.enter tracker (some effect) fun other same => by
        cases same
        exact feeds
      refine ⟨items, ⟨entered, contents, long, body ▸ feeds.lays long⟩, .nil, ?_⟩
      intro outcome after final inside fedNow contentsNow longer
      exact ⟨fed.leave fedNow (back outcome inside), contentsNow, by omega, trivial⟩
  | @attempts frames tracker effect rest world =>
      obtain ⟨owner, admits⟩ := work
      rw [List.forall_mem_cons] at admits
      refine ⟨items, ⟨fed, contents, long, owner, admits.1⟩, .nil, ?_⟩
      intro outcome after final _ fedNow contentsNow longer
      cases outcome with
      | ok result => exact ⟨fedNow, contentsNow, by omega, owner, admits.2⟩
      | error fault =>
          exact ⟨fedNow.modifyTracker tracker (fun _ => rfl) fun _ _ => rfl, contentsNow, by omega,
            owner, admits.2⟩
  | @tell frames access rest world =>
      have inside := List.forall_mem_cons.mp work
      have told : world.store.heap.owner access.container = start.store.heap.owner list := by
        rw [inside.1, fed.owner_eq]
      refine ⟨items, ⟨fed, contents, long, told, fun effect => fed.subscribed access effect inside.1⟩,
        .nil, ?_⟩
      intro outcome after final _ fedNow contentsNow longer
      exact ⟨fedNow, contentsNow, by omega, inside.2⟩

/-- Along a run that only appends to a list the items are those that the values stored by it lead
to. -/
theorem Runs.fills {passed : List (Point σ)} {result : Except Fault Value} {after : World σ}
    (runs : point.Runs passed result after) (laying : point.Laying start list named single items) :
    ∃ final, start.Fed list named single after ∧
      after.store.heap.contents list = .array final named ∧
      Addition.Fills (Addition.Placed (start.store.heap.contents list).count single) items
        (passed.filterMap (adds? list)) final := by
  induction runs generalizing items with
  | ends here =>
      refine ⟨items, here.world_eq ▸ laying.fed, here.world_eq ▸ laying.contents, ?_⟩
      rw [List.filterMap_cons_none (here.adds? list)]
      exact .nil
  | goes here _ ih =>
      obtain ⟨final, fed, contents, fills⟩ := ih (laying.goes here)
      refine ⟨final, fed, contents, ?_⟩
      rw [List.filterMap_cons_none (here.adds? list)]
      exact fills
  | @calls point callee resume inside passed outcome result between after here called later ihCalled
      ihLater =>
      obtain ⟨first, layingCallee, stored, resumes⟩ := laying.calls here
      obtain ⟨second, fed, contents, fills⟩ := ihCalled layingCallee
      obtain ⟨final, fedAfter, contentsAfter, fillsLater⟩ :=
        ihLater (resumes outcome between second called.extends_ fed contents fills.size_le)
      refine ⟨final, fedAfter, contentsAfter, ?_⟩
      rw [filterMap_adds?_cons]
      exact stored.append (fills.append fillsLater)

end Point

end LiveMarkup
