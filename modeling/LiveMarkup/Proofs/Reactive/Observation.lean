import LiveMarkup.Proofs.Heap.Ownership
import LiveMarkup.Proofs.Reactive.Run

/-!
# Tasks that change nothing

A task that writes to no container, runs no effect and leaves the surroundings alone can be followed
on the store alone.  What it has looked at is its trace: the reads that were counted, the tests of
presence that were not, and the containers of other trackers that were copied without any read being
counted.
-/

namespace LiveMarkup

/-- What a task has looked at. -/
structure Trace where
  /-- The properties whose reads were counted. -/
  reads : List Access
  /-- The properties whose presence was tested. -/
  probes : List Access
  /-- The containers of other trackers that were copied. -/
  copied : List ContainerId

namespace Trace

/-- Nothing was looked at. -/
def empty : Trace := ⟨[], [], []⟩

/-- One trace and then another. -/
def append (first second : Trace) : Trace :=
  ⟨first.reads ++ second.reads, first.probes ++ second.probes, first.copied ++ second.copied⟩

/-- Whether all counted reads and all tests are among the given ones, and nothing was copied. -/
structure Within (reads probes : Access → Prop) (trace : Trace) : Prop where
  /-- The reads. -/
  reads : ∀ access ∈ trace.reads, reads access
  /-- The tests of presence. -/
  probes : ∀ access ∈ trace.probes, probes access
  /-- Nothing was copied. -/
  copied : trace.copied = []

theorem within_append {reads probes : Access → Prop} {first second : Trace} :
    (first.append second).Within reads probes ↔
      first.Within reads probes ∧ second.Within reads probes := by
  constructor
  · rintro ⟨read, probed, copied⟩
    obtain ⟨none, noneLater⟩ := List.append_eq_nil_iff.mp copied
    exact ⟨⟨fun access member => read access (List.mem_append_left _ member),
        fun access member => probed access (List.mem_append_left _ member), none⟩,
      ⟨fun access member => read access (List.mem_append_right _ member),
        fun access member => probed access (List.mem_append_right _ member), noneLater⟩⟩
  · rintro ⟨⟨read, probed, copied⟩, ⟨readLater, probedLater, copiedLater⟩⟩
    refine ⟨fun access member => ?_, fun access member => ?_, ?_⟩
    · exact (List.mem_append.mp member).elim (read access) (readLater access)
    · exact (List.mem_append.mp member).elim (probed access) (probedLater access)
    · exact List.append_eq_nil_iff.mpr ⟨copied, copiedLater⟩

end Trace

namespace Heap

/-- The containers among some values that do not belong to a tracker. -/
def foreignTo (heap : Heap) (tracker : TrackerId) (values : List Value) : List ContainerId :=
  values.filterMap fun
    | .container id => if heap.owner id = tracker then none else some id
    | _ => none

/-- The containers that a request copies. -/
def copiedBy (heap : Heap) : Request → List ContainerId
  | .object tracker entries => heap.foreignTo tracker (entries.map Prod.snd)
  | .array tracker items => heap.foreignTo tracker items
  | .adopt tracker value => heap.foreignTo tracker [value]
  | .data _ _ | .closure _ | .event _ | .amend _ _ => []

theorem owner_of_foreignTo {heap : Heap} {tracker : TrackerId} {values : List Value}
    (none : heap.foreignTo tracker values = []) {id : ContainerId} (member : .container id ∈ values) :
    heap.owner id = tracker := by
  refine Decidable.byContradiction fun foreign => ?_
  have listed : id ∈ heap.foreignTo tracker values :=
    List.mem_filterMap.mpr ⟨.container id, member, if_neg foreign⟩
  rw [none] at listed
  contradiction

/-- What belongs to the tracker is taken as it is. -/
theorem adopt_of_owner {heap : Heap} {tracker : TrackerId} {value : Value}
    (own : ∀ id, value = .container id → heap.owner id = tracker) :
    adopt tracker value heap = (value, heap) := by
  change adoptWithin tracker heap.containers.size value heap = _
  cases value with
  | container id => exact adoptWithin_of_owner (own id rfl) _
  | _ => cases heap.containers.size <;> rfl

/-- What each item is taken as without a change, the list is. -/
theorem mapM_of_taken {α : Type} {take : α → StateM Heap α} {heap : Heap} {list : List α}
    (taken : ∀ item ∈ list, take item heap = (item, heap)) : (list.mapM take) heap = (list, heap) := by
  induction list with
  | nil => rfl
  | cons item rest ih =>
      rw [List.mapM_cons]
      change ((take item heap).1 :: ((rest.mapM take) (take item heap).2).1,
        ((rest.mapM take) (take item heap).2).2) = (item :: rest, heap)
      rw [taken item List.mem_cons_self,
        ih fun other member => taken other (List.mem_cons_of_mem item member)]

theorem newArray_of_owner {heap : Heap} {tracker : TrackerId} {items : List Value}
    (none : heap.foreignTo tracker items = []) :
    newArray tracker items heap = heap.newContainer tracker (.array items.toArray .empty) := by
  have taken : (items.mapM (adopt tracker)) heap = (items, heap) :=
    mapM_of_taken fun item member =>
      adopt_of_owner fun id same => owner_of_foreignTo none (same ▸ member)
  change ((items.mapM (adopt tracker)) heap).2.newContainer tracker
    (.array ((items.mapM (adopt tracker)) heap).1.toArray .empty) = _
  rw [taken]

theorem newObject_of_owner {heap : Heap} {tracker : TrackerId} {entries : List (Key × Value)}
    (none : heap.foreignTo tracker (entries.map Prod.snd) = []) :
    newObject tracker entries heap = heap.newContainer tracker (.object (Assoc.ofList entries)) := by
  let take (entry : Key × Value) : StateM Heap (Key × Value) := do
    return (entry.1, ← adopt tracker entry.2)
  have taken : (entries.mapM take) heap = (entries, heap) := by
    refine mapM_of_taken fun entry member => ?_
    have adopted : adopt tracker entry.2 heap = (entry.2, heap) :=
      adopt_of_owner fun id same =>
        owner_of_foreignTo none (same ▸ List.mem_map.mpr ⟨entry, member, rfl⟩)
    change ((entry.1, (adopt tracker entry.2 heap).1), (adopt tracker entry.2 heap).2) = _
    rw [adopted]
  change ((entries.mapM take) heap).2.newContainer tracker
    (.object (Assoc.ofList ((entries.mapM take) heap).1)) = _
  rw [taken]

end Heap

namespace Store

/-- The value and the store after a container is made. -/
def madeContainer (store : Store) (tracker : TrackerId) (contents : Contents) : Value × Store :=
  (.container ⟨store.heap.containers.size⟩,
    { store with heap := (store.heap.newContainer tracker contents).2 })

theorem perform_array {store : Store} {tracker : TrackerId} {items : List Value}
    (none : store.heap.copiedBy (.array tracker items) = []) :
    store.perform (.array tracker items) =
      store.madeContainer tracker (.array items.toArray .empty) := by
  change (Value.container (Heap.newArray tracker items store.heap).1,
    { store with heap := (Heap.newArray tracker items store.heap).2 }) = _
  rw [Heap.newArray_of_owner none]
  rfl

theorem perform_object {store : Store} {tracker : TrackerId} {entries : List (Key × Value)}
    (none : store.heap.copiedBy (.object tracker entries) = []) :
    store.perform (.object tracker entries) =
      store.madeContainer tracker (.object (Assoc.ofList entries)) := by
  change (Value.container (Heap.newObject tracker entries store.heap).1,
    { store with heap := (Heap.newObject tracker entries store.heap).2 }) = _
  rw [Heap.newObject_of_owner none]
  rfl

/-- Nothing has happened between two stores but reads that were counted and containers that were
made. -/
structure Steady (before after : Store) : Prop where
  /-- Containers are only added. -/
  heap : before.heap.Grows after.heap
  /-- Effects have not run. -/
  runs : after.runs = before.runs
  /-- There are the same trackers. -/
  trackers : after.trackers.size = before.trackers.size
  /-- Trackers keep their configurations. -/
  config : ∀ id, (after.tracker id).config = (before.tracker id).config
  /-- Trackers keep their frames. -/
  stack : ∀ id, (after.tracker id).stack = (before.tracker id).stack
  /-- No fault was reported. -/
  errors : ∀ id, (after.tracker id).errors = (before.tracker id).errors
  /-- No subscription is lost. -/
  dependents : ∀ id access, ∀ effect ∈ (before.tracker id).dependents access,
    effect ∈ (after.tracker id).dependents access

namespace Steady

theorem refl (store : Store) : store.Steady store :=
  ⟨.refl _, rfl, rfl, fun _ => rfl, fun _ => rfl, fun _ => rfl, fun _ _ _ member => member⟩

theorem trans {first second third : Store} (before : first.Steady second)
    (after : second.Steady third) : first.Steady third where
  heap := before.heap.trans after.heap
  runs := after.runs.trans before.runs
  trackers := after.trackers.trans before.trackers
  config id := (after.config id).trans (before.config id)
  stack id := (after.stack id).trans (before.stack id)
  errors id := (after.errors id).trans (before.errors id)
  dependents id access effect member :=
    after.dependents id access effect (before.dependents id access effect member)

theorem track (store : Store) (reads : Array Access) : store.Steady (store.track reads) where
  heap := by
    rw [heap_track]
    exact .refl _
  runs := runs_track store reads
  trackers := size_track store reads
  config := config_tracker_track store reads
  stack := stack_tracker_track store reads
  errors := errors_tracker_track store reads
  dependents := (grows_track store reads).dependents

theorem perform (store : Store) (request : Request) : store.Steady (store.perform request).2 :=
  ⟨Heap.perform_allocates request store.heap, rfl, rfl, fun _ => rfl, fun _ => rfl, fun _ => rfl,
    fun _ _ _ member => member⟩

end Steady

end Store

namespace Task

variable {σ : Type}

/-- Follows a task that changes nothing: its outcome, the store afterwards, and what it has looked
at.  There is none if the task does more than that. -/
def observe : Task σ → Store → Option (Except Fault Value × Store × Trace)
  | .done result, store => some (result, store, .empty)
  | .look next, store => (next store).observe store
  | .has target key next, store =>
      ((next (store.heap.contains target key)).observe store).map fun (result, after, trace) =>
        (result, after, Trace.append ⟨[], [⟨target, key⟩], []⟩ trace)
  | .track reads next, store =>
      (next.observe (store.track reads)).map fun (result, after, trace) =>
        (result, after, Trace.append ⟨reads.toList, [], []⟩ trace)
  | .make request next, store =>
      ((next (store.perform request).1).observe (store.perform request).2).map
        fun (result, after, trace) =>
          (result, after, Trace.append ⟨[], [], store.heap.copiedBy request⟩ trace)
  | .write _ _ _ _, _ | .pop _ _, _ | .define _ _, _ | .run _ _ _, _ | .untracked _ _ _, _
  | .report _ _ _, _ | .drain _ _, _ | .survey _, _ | .alter _ _, _ => none

/-- Following a task is running it. -/
theorem interpret_of_observe {runner : World.Runner σ} {task : Task σ} {world : World σ}
    {result : Except Fault Value} {after : Store} {trace : Trace}
    (observed : task.observe world.store = some (result, after, trace)) :
    World.interpret runner task world = (result, { world with store := after }) := by
  induction task generalizing world trace with
  | done outcome =>
      obtain ⟨rfl, rfl, _⟩ := observed
      rfl
  | look next ih => exact ih world.store observed
  | has target key next ih =>
      obtain ⟨⟨_, _, later⟩, followed, same⟩ := Option.map_eq_some_iff.mp observed
      obtain ⟨rfl, rfl, _⟩ := same
      exact ih _ followed
  | track reads next ih =>
      obtain ⟨⟨_, _, later⟩, followed, same⟩ := Option.map_eq_some_iff.mp observed
      obtain ⟨rfl, rfl, _⟩ := same
      have later : next.observe (world.mapStore fun store => store.track reads).store = _ := followed
      exact ih later
  | make request next ih =>
      obtain ⟨⟨_, _, later⟩, followed, same⟩ := Option.map_eq_some_iff.mp observed
      obtain ⟨rfl, rfl, _⟩ := same
      let made : World σ := { world with store := (world.store.perform request).2 }
      have later : (next (world.store.perform request).1).observe made.store = _ := followed
      exact ih _ later
  | _ => contradiction

theorem observe_steady {task : Task σ} {store after : Store}
    {result : Except Fault Value} {trace : Trace}
    (observed : task.observe store = some (result, after, trace)) : store.Steady after := by
  induction task generalizing store trace with
  | done outcome =>
      obtain ⟨_, rfl, _⟩ := observed
      exact .refl _
  | look next ih => exact ih store observed
  | has target key next ih =>
      obtain ⟨⟨_, _, later⟩, followed, same⟩ := Option.map_eq_some_iff.mp observed
      obtain ⟨_, rfl, _⟩ := same
      exact ih _ followed
  | track reads next ih =>
      obtain ⟨⟨_, _, later⟩, followed, same⟩ := Option.map_eq_some_iff.mp observed
      obtain ⟨_, rfl, _⟩ := same
      exact (Store.Steady.track store reads).trans (ih followed)
  | make request next ih =>
      obtain ⟨⟨_, _, later⟩, followed, same⟩ := Option.map_eq_some_iff.mp observed
      obtain ⟨_, rfl, _⟩ := same
      exact (Store.Steady.perform store request).trans (ih _ followed)
  | _ => contradiction

/-- Of the containers that were there before, an effect in front of the tracker is subscribed to
exactly the reads of the trace, besides what it was subscribed to already. -/
theorem mem_dependents_observe {task : Task σ} {store after : Store} {result : Except Fault Value}
    {trace : Trace} (observed : task.observe store = some (result, after, trace)) {access : Access}
    {effect : EffectId} (known : access.container.index < store.heap.containers.size) :
    effect ∈ after.dependents access ↔ effect ∈ store.dependents access ∨
      access ∈ trace.reads ∧ store.HasTracker (store.heap.owner access.container) ∧
        (store.tracker (store.heap.owner access.container)).current = some effect := by
  induction task generalizing store trace with
  | done outcome =>
      obtain ⟨_, rfl, rfl⟩ := observed
      simp [Trace.empty]
  | look next ih => exact ih store observed known
  | has target key next ih =>
      obtain ⟨⟨_, _, later⟩, followed, same⟩ := Option.map_eq_some_iff.mp observed
      obtain ⟨_, rfl, rfl⟩ := same
      have rest := ih _ followed known
      exact rest
  | track reads next ih =>
      obtain ⟨⟨_, _, later⟩, followed, same⟩ := Option.map_eq_some_iff.mp observed
      obtain ⟨_, rfl, rfl⟩ := same
      have rest := ih followed (by rw [Store.heap_track]; exact known)
      have trackers (id : TrackerId) : (store.track reads).HasTracker id ↔ store.HasTracker id := by
        rw [Store.HasTracker, Store.size_track, Store.HasTracker]
      rw [rest, Store.mem_dependents_track, Store.heap_track, Store.current_tracker_track, trackers]
      simp only [Trace.append, List.mem_append, Array.mem_toList_iff]
      constructor
      · rintro ((old | ⟨now, both⟩) | ⟨later, both⟩)
        · exact .inl old
        · exact .inr ⟨.inl now, both⟩
        · exact .inr ⟨.inr later, both⟩
      · rintro (old | ⟨now | later, both⟩)
        · exact .inl (.inl old)
        · exact .inl (.inr ⟨now, both⟩)
        · exact .inr ⟨later, both⟩
  | make request next ih =>
      obtain ⟨⟨_, _, later⟩, followed, same⟩ := Option.map_eq_some_iff.mp observed
      obtain ⟨_, rfl, rfl⟩ := same
      have grows := Heap.perform_allocates request store.heap
      have owner : (store.perform request).2.heap.owner access.container =
          store.heap.owner access.container := grows.keeps.owner _ known
      have rest := ih _ followed (Nat.lt_of_lt_of_le known grows.size_le)
      rw [rest, Store.mem_dependents, Store.mem_dependents, owner]
      rfl
  | _ => contradiction

end Task

end LiveMarkup
