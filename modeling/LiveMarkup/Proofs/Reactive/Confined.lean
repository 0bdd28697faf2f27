import LiveMarkup.Proofs.Heap.Reach
import LiveMarkup.Proofs.Reactive.Yield

/-!
# Confined computations

A computation that starts from some containers and changes nothing gets at these containers and at
those it makes itself.  It yields a result for sure, it reads no other container, and what it makes
holds nothing else.
-/

namespace LiveMarkup

/-- What a computation may get at: some containers that it holds, and all those made since there
were a certain number of them.  They belong to one tracker. -/
structure Reach where
  /-- The tracker. -/
  tracker : TrackerId
  /-- The containers at hand. -/
  held : ContainerId → Prop
  /-- The number of containers at the start. -/
  base : Nat

namespace Reach

/-- Whether a container is at hand or was made since. -/
def inside (reach : Reach) (heap : Heap) (id : ContainerId) : Prop :=
  reach.held id ∨ reach.base ≤ id.index ∧ id.index < heap.containers.size

theorem inside_mono {reach : Reach} {before after : Heap} (grows : before.Grows after)
    {id : ContainerId} (inside : reach.inside before id) : reach.inside after id :=
  inside.imp_right fun made => ⟨made.1, Nat.lt_of_lt_of_le made.2 grows.size_le⟩

/-- Whether a value refers to nothing outside. -/
abbrev Holds (reach : Reach) (heap : Heap) (value : Value) : Prop := value.In (reach.inside heap)

theorem Holds.mono {reach : Reach} {before after : Heap} {value : Value}
    (holds : reach.Holds before value) (grows : before.Grows after) : reach.Holds after value :=
  Value.In.mono holds fun _ => inside_mono grows

/-- A state from which a computation gets no further than its reach: what lies inside holds nothing
else and belongs to the tracker. -/
structure Calm (reach : Reach) (heap : Heap) : Prop where
  /-- The containers inside hold nothing outside. -/
  encloses : heap.Encloses (reach.inside heap)
  /-- The containers inside belong to the tracker. -/
  owner : ∀ id, reach.inside heap id → heap.owner id = reach.tracker
  /-- No container is lost. -/
  base : reach.base ≤ heap.containers.size

/-- A new container that holds nothing from outside keeps the state calm. -/
theorem Calm.newContainer {reach : Reach} {heap : Heap} (calm : reach.Calm heap)
    {contents : Contents} (within : ∀ value ∈ contents.values, reach.Holds heap value) :
    reach.Calm (heap.newContainer reach.tracker contents).2 ∧
      reach.inside (heap.newContainer reach.tracker contents).2 ⟨heap.containers.size⟩ := by
  have grows := Heap.newContainer_grows heap reach.tracker contents
  have size : (heap.newContainer reach.tracker contents).2.containers.size =
      heap.containers.size + 1 := by simp [Heap.newContainer]
  refine ⟨⟨fun id inside value member => ?_, fun id inside => ?_, ?_⟩, .inr ⟨calm.base, ?_⟩⟩
  · rw [Heap.contents, Heap.container_newContainer] at member
    split at member
    next new => exact Holds.mono (within value member) grows
    next old =>
      have before : reach.inside heap id := inside.imp_right fun made => ⟨made.1, by omega⟩
      exact Holds.mono (calm.encloses id before value member) grows
  · rw [Heap.owner, Heap.container_newContainer]
    split
    next new => rfl
    next old => exact calm.owner id (inside.imp_right fun made => ⟨made.1, by omega⟩)
  · have base := calm.base
    omega
  · rw [size]
    exact Nat.lt_succ_self _

/-- If every container has belonged to the tracker, every container still does. -/
theorem Calm.owner_of_grows {reach : Reach} {before after : Heap} (calm : reach.Calm after)
    (grows : before.Grows after) (base : reach.base ≤ before.containers.size)
    (owner : ∀ id, before.owner id = reach.tracker) (id : ContainerId) :
    after.owner id = reach.tracker := by
  by_cases old : id.index < before.containers.size
  · rw [Heap.owner, grows.container id old]
    exact owner id
  · by_cases known : id.index < after.containers.size
    · exact calm.owner id (.inr ⟨Nat.le_trans base (Nat.le_of_not_lt old), known⟩)
    · rw [← owner id, Heap.owner, Heap.owner,
        Heap.container_of_size_le (Nat.le_of_not_lt known),
        Heap.container_of_size_le (Nat.le_of_not_lt old)]

end Reach

/-- Whether a computation has looked at nothing outside its reach.  It has tested for nothing but
properties of the data that it has read as well, and has copied nothing. -/
structure Trace.Near (reach : Reach) (data : Option ContainerId) (heap : Heap) (trace : Trace) :
    Prop where
  /-- The reads lie inside. -/
  reads : ∀ access ∈ trace.reads, reach.inside heap access.container
  /-- A test is followed by a read. -/
  probes : ∀ access ∈ trace.probes, access ∈ trace.reads ∧ data = some access.container
  /-- Nothing was copied. -/
  copied : trace.copied = []

namespace Trace.Near

variable {reach : Reach} {data : Option ContainerId} {before heap : Heap} {first second : Trace}

theorem empty : Trace.empty.Near reach data heap :=
  ⟨fun _ member => (nomatch member), fun _ member => (nomatch member), rfl⟩

theorem append (near : first.Near reach data before) (grows : before.Grows heap)
    (later : second.Near reach data heap) : (first.append second).Near reach data heap where
  reads access member := by
    rcases List.mem_append.mp member with here | there
    · exact Reach.inside_mono grows (near.reads access here)
    · exact later.reads access there
  probes access member := by
    rcases List.mem_append.mp member with here | there
    · exact (near.probes access here).imp_left (List.mem_append_left _)
    · exact (later.probes access there).imp_left (List.mem_append_right _)
  copied := by
    rw [Trace.append, near.copied, later.copied]
    rfl

end Trace.Near

/-- What is left when a confined computation has ended. -/
structure TaskM.Concludes {σ α : Type} (reach : Reach) (data : Option ContainerId)
    (good : Heap → α → Prop) (computation : TaskM σ α) (before : Store) (result : Except Fault α)
    (after : Store) (trace : Trace) : Prop where
  /-- The computation yields its result. -/
  yields : computation.Yields before result after trace
  /-- The state is calm. -/
  calm : reach.Calm after.heap
  /-- The result is good. -/
  good : ∀ a, result = .ok a → good after.heap a
  /-- The computation has stayed in its reach. -/
  near : trace.Near reach data after.heap
  /-- No function was made. -/
  closures : after.heap.closures = before.heap.closures
  /-- No event was made. -/
  events : after.heap.events = before.heap.events

/-- Whether a computation, from every calm state that has grown from a heap, yields something good
without leaving its reach. -/
def TaskM.Confined {σ α : Type} (reach : Reach) (data : Option ContainerId) (floor : Heap)
    (good : Heap → α → Prop) (computation : TaskM σ α) : Prop :=
  ∀ store : Store, floor.Grows store.heap → reach.Calm store.heap →
    ∃ result after trace, computation.Concludes reach data good store result after trace

namespace TaskM.Confined

variable {σ α β : Type} {reach : Reach} {data : Option ContainerId} {floor : Heap}
  {good : Heap → α → Prop} {goodNext : Heap → β → Prop}

theorem pure {a : α} (holds : ∀ heap, floor.Grows heap → good heap a) :
    Confined (σ := σ) reach data floor good (Pure.pure a) :=
  fun store grows calm => ⟨_, _, _, .pure a store, calm,
    fun _ same => Except.ok.inj same ▸ holds store.heap grows, .empty, rfl, rfl⟩

theorem fail (fault : Fault) : Confined (σ := σ) reach data floor good (TaskM.fail fault) :=
  fun store _ calm => ⟨_, _, _, .fail fault store, calm, fun _ same => (nomatch same), .empty, rfl, rfl⟩

theorem bind {computation : TaskM σ α} {next : α → TaskM σ β}
    (confined : Confined reach data floor good computation)
    (later : ∀ a heap, floor.Grows heap → good heap a → Confined reach data heap goodNext (next a)) :
    Confined reach data floor goodNext (computation >>= next) := by
  intro store grows calm
  obtain ⟨result, between, trace, concludes⟩ := confined store grows calm
  cases result with
  | error fault =>
      exact ⟨_, _, _, concludes.yields.bind_error, concludes.calm, fun _ same => (nomatch same),
        concludes.near, concludes.closures, concludes.events⟩
  | ok a =>
      have grown := grows.trans concludes.yields.steady.heap
      obtain ⟨result, after, rest, concludesNext⟩ :=
        later a between.heap grown (concludes.good a rfl) between (.refl _) concludes.calm
      have near := concludes.near.append concludesNext.yields.steady.heap concludesNext.near
      exact ⟨_, _, _, concludes.yields.bind concludesNext.yields, concludesNext.calm,
        concludesNext.good, near, concludesNext.closures.trans concludes.closures,
        concludesNext.events.trans concludes.events⟩

theorem look {observe : Heap → α} (holds : ∀ heap, floor.Grows heap → good heap (observe heap)) :
    Confined (σ := σ) reach data floor good (TaskM.look observe) :=
  fun store grows calm => ⟨_, _, _, .look observe store, calm,
    fun _ same => Except.ok.inj same ▸ holds store.heap grows, .empty, rfl, rfl⟩

/-- A computation that only reads is confined if its reads are. -/
theorem watch {computation : Heap → Watch α}
    (stays : ∀ heap, floor.Grows heap → reach.Calm heap →
      Watch.Stays (reach.inside heap) (good heap) (computation heap)) :
    Confined (σ := σ) reach data floor good (TaskM.watch computation) := by
  intro store grows calm
  have stays := stays store.heap grows calm
  have yields := Yields.watch (σ := σ) computation store
  generalize same : store.track ((computation store.heap).run #[]).2 = after at yields
  have heap : after.heap = store.heap := by rw [← same, Store.heap_track]
  refine ⟨_, after, _, yields, heap ▸ calm, ?_, ⟨?_, ?_, rfl⟩, by rw [heap], by rw [heap]⟩
  · intro a result
    rw [heap, ← Except.ok.inj result]
    exact stays.result #[]
  · intro access member
    have inside := (stays.reads #[] access (Array.mem_toList_iff.mp member)).resolve_left
      (Array.not_mem_empty access)
    rw [heap]
    exact inside
  · exact fun _ member => nomatch member

/-- Making a container of what lies inside is confined. -/
theorem container {request : Request} (contents : Contents)
    (within : ∀ heap, floor.Grows heap → ∀ value ∈ contents.values, reach.Holds heap value)
    (own : ∀ heap, floor.Grows heap → reach.Calm heap → heap.copiedBy request = [])
    (made : ∀ store : Store, store.heap.copiedBy request = [] →
      store.perform request = store.madeContainer reach.tracker contents) :
    Confined (σ := σ) reach data floor reach.Holds
      (TaskM.make request) := by
  intro store grows calm
  have none := own store.heap grows calm
  have yields := Yields.make (σ := σ) request store
  rw [made store none, none] at yields
  obtain ⟨calmAfter, inside⟩ := calm.newContainer (within store.heap grows)
  refine ⟨_, _, _, yields, calmAfter, ?_, ⟨?_, ?_, rfl⟩, rfl, rfl⟩
  · intro a result
    rw [← Except.ok.inj result]
    exact Value.in_container.mpr inside
  · exact fun _ member => nomatch member
  · exact fun _ member => nomatch member

/-- No value inside is foreign to the tracker. -/
theorem foreignTo_of_holds {heap : Heap} (calm : reach.Calm heap) {values : List Value}
    (within : ∀ value ∈ values, reach.Holds heap value) :
    heap.foreignTo reach.tracker values = [] := by
  refine List.filterMap_eq_nil_iff.mpr fun value member => ?_
  cases value with
  | container id => exact if_pos (calm.owner id (within _ member id rfl))
  | _ => rfl

theorem array (items : List Value)
    (within : ∀ value ∈ items, reach.Holds floor value) :
    Confined (σ := σ) reach data floor reach.Holds
      (TaskM.make (.array reach.tracker items)) := by
  have within {heap : Heap} (grows : floor.Grows heap) (value : Value) (member : value ∈ items) :
      reach.Holds heap value := Reach.Holds.mono (within value member) grows
  refine container (.array items.toArray .empty) (fun heap grows value member => ?_)
    (fun heap grows calm => foreignTo_of_holds calm (within grows))
    fun _ none => Store.perform_array none
  rcases List.mem_append.mp member with item | property
  · exact within grows value item
  · exact nomatch property

theorem object (entries : List (Key × Value))
    (within : ∀ entry ∈ entries, reach.Holds floor entry.2) :
    Confined (σ := σ) reach data floor reach.Holds
      (TaskM.make (.object reach.tracker entries)) := by
  have within {heap : Heap} (grows : floor.Grows heap) (value : Value)
      (member : value ∈ entries.map Prod.snd) : reach.Holds heap value := by
    obtain ⟨entry, listed, rfl⟩ := List.mem_map.mp member
    exact Reach.Holds.mono (within entry listed) grows
  refine container (.object (Assoc.ofList entries)) (fun heap grows value member => ?_)
    (fun heap grows calm => foreignTo_of_holds calm (within grows))
    fun _ none => Store.perform_object none
  obtain ⟨entry, listed, rfl⟩ := List.mem_map.mp member
  exact within grows _ (List.mem_map.mpr ⟨entry, Assoc.mem_ofList listed, rfl⟩)

end TaskM.Confined

end LiveMarkup
