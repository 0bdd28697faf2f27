import LiveMarkup.Proofs.Heap.Mirror
import LiveMarkup.Proofs.Reactive.Observation

/-!
# Two runs side by side

A computation is simulated by another one if, in heaps that mirror each other, following the second
yields the counterpart of what following the first yields, as long as the first looks only at what
corresponds.  Each way to build a computation has its lemma.
-/

namespace LiveMarkup

namespace Heap.Mirrors

variable {ρ : Renaming} {reads probes : Access → Prop} {first second : Heap}

/-- When two heaps get counterparts of one container, a container and its counterpart are both the
new one, or both as they were. -/
theorem newContainer_cases (mirrors : first.Mirrors ρ reads probes second) (owner : TrackerId)
    (contents : Contents) (id : ContainerId) :
    ((first.newContainer owner contents).2.container id = ⟨owner, contents⟩ ∧
      (second.newContainer owner (ρ.contents contents)).2.container (ρ.container id) =
        ⟨owner, ρ.contents contents⟩) ∨
    ((first.newContainer owner contents).2.container id = first.container id ∧
      (second.newContainer owner (ρ.contents contents)).2.container (ρ.container id) =
        second.container (ρ.container id)) := by
  have next : ρ.container ⟨first.containers.size⟩ = ⟨second.containers.size⟩ :=
    mirrors.nextContainer 0
  have both : (ρ.container id).index = second.containers.size ↔
      id.index = first.containers.size := by
    have same := ρ.index_container_eq_iff id ⟨first.containers.size⟩
    rwa [next] at same
  rw [container_newContainer, container_newContainer]
  by_cases new : id.index = first.containers.size
  · rw [if_pos new, if_pos (both.mpr new)]
    exact .inl ⟨rfl, rfl⟩
  · rw [if_neg new, if_neg fun there => new (both.mp there)]
    exact .inr ⟨rfl, rfl⟩

/-- Two heaps that get counterparts of one container still mirror each other. -/
theorem newContainer (mirrors : first.Mirrors ρ reads probes second) (owner : TrackerId)
    (contents : Contents) :
    (first.newContainer owner contents).2.Mirrors ρ reads probes
      (second.newContainer owner (ρ.contents contents)).2 := by
  have cases := mirrors.newContainer_cases owner contents
  refine ⟨fun id => ?_, fun id => ?_, fun access member => ?_, fun access member => ?_,
    fun id new => ?_, fun later => ?_, mirrors.closure, mirrors.nextFunction, mirrors.event, mirrors.eventKnown⟩
  · simp only [Heap.isArray, Heap.contents]
    rcases cases id with ⟨one, other⟩ | ⟨one, other⟩
    · rw [one, other]
      exact Contents.isArray_rename ρ contents
    · rw [one, other]
      exact mirrors.kind id
  · simp only [Heap.owner]
    rcases cases id with ⟨one, other⟩ | ⟨one, other⟩
    · rw [one, other]
    · rw [one, other]
      exact mirrors.owner id
  · simp only [Heap.contents]
    rcases cases access.container with ⟨one, other⟩ | ⟨one, other⟩
    · rw [one, other]
      exact Contents.mirrored_rename ρ contents access.key
    · rw [one, other]
      exact mirrors.read access member
  · simp only [Heap.contains, Heap.contents]
    rcases cases access.container with ⟨one, other⟩ | ⟨one, other⟩
    · rw [one, other]
      exact Contents.contains_rename ρ contents access.key
    · rw [one, other]
      exact mirrors.probed access member
  · simp only [Heap.contents]
    rcases cases id with ⟨one, other⟩ | ⟨one, other⟩
    · rw [one, other]
    · rw [one, other]
      exact mirrors.made id new
  · simp only [Heap.newContainer, Array.size_push]
    rw [Nat.add_right_comm, Nat.add_right_comm second.containers.size]
    exact mirrors.nextContainer (later + 1)

theorem newClosure (mirrors : first.Mirrors ρ reads probes second) (code : Closure) :
    (first.newClosure code).2.Mirrors ρ reads probes (second.newClosure (ρ.closure code)).2 := by
  have next : ρ.function ⟨first.closures.size⟩ = ⟨second.closures.size⟩ := mirrors.nextFunction 0
  refine ⟨mirrors.kind, mirrors.owner, mirrors.read, mirrors.probed, mirrors.made,
    mirrors.nextContainer, fun id => ?_, fun later => ?_, mirrors.event, mirrors.eventKnown⟩
  · have both : (ρ.function id).index = second.closures.size ↔
        id.index = first.closures.size := by
      have same := ρ.index_function_eq_iff id ⟨first.closures.size⟩
      rwa [next] at same
    simp only [Heap.newClosure, Array.getElem?_push]
    by_cases new : id.index = first.closures.size
    · rw [if_pos new, if_pos (both.mpr new)]
      rfl
    · rw [if_neg new, if_neg fun there => new (both.mp there)]
      exact mirrors.closure id
  · simp only [Heap.newClosure, Array.size_push]
    rw [Nat.add_right_comm, Nat.add_right_comm second.closures.size]
    exact mirrors.nextFunction (later + 1)

theorem modifyEvent (mirrors : first.Mirrors ρ reads probes second) (id : EventId)
    (change : Event → Event) :
    (first.modifyEvent id change).Mirrors ρ reads probes
      (second.modifyEvent (ρ.event id) change) := by
  have modified (heap : Heap) (id other : EventId) :
      (heap.modifyEvent id change).event other =
        if other.index = id.index ∧ other.index < heap.events.size then change (heap.event other)
        else heap.event other := by
    simp only [Heap.modifyEvent, Heap.event, Array.getElem?_modify]
    by_cases same : other.index = id.index
    · by_cases known : id.index < heap.events.size
      · simp [same, known]
      · simp [same, known]
    · have differs : ¬id.index = other.index := fun equal => same equal.symm
      simp [same, differs]
  refine ⟨mirrors.kind, mirrors.owner, mirrors.read, mirrors.probed, mirrors.made,
    mirrors.nextContainer, mirrors.closure, mirrors.nextFunction, fun other => ?_, fun other => ?_⟩
  · have same := ρ.index_event_eq_iff other id
    simp only [modified, mirrors.event, same, mirrors.eventKnown]
  · simp only [Heap.modifyEvent, Array.size_modify]
    exact mirrors.eventKnown other

/-- Counterparts are copied where the originals are. -/
theorem foreignTo (mirrors : first.Mirrors ρ reads probes second) (tracker : TrackerId)
    (values : List Value) :
    second.foreignTo tracker (values.map ρ.value) =
      (first.foreignTo tracker values).map ρ.container := by
  rw [Heap.foreignTo, Heap.foreignTo, List.filterMap_map, List.map_filterMap]
  refine congrArg (fun copied => values.filterMap copied) (funext fun value => ?_)
  cases value with
  | container id =>
      simp only [Function.comp_apply, Renaming.value, mirrors.owner]
      split
      · rfl
      · rfl
  | _ => rfl

end Heap.Mirrors

/-- Whether following the second task in its store yields the counterpart of what following the first
one yields, if the first looks only at the given properties. -/
def Task.Matches {σ : Type} (ρ : Renaming) (reads probes : Access → Prop) (first second : Task σ)
    (here there : Store) : Prop :=
  ∀ result after trace, first.observe here = some (result, after, trace) →
    trace.Within reads probes →
    ∃ otherAfter otherTrace,
      second.observe there = some (result.map ρ.value, otherAfter, otherTrace) ∧
        after.heap.Mirrors ρ reads probes otherAfter.heap

namespace Task.Matches

variable {σ : Type} {ρ : Renaming} {reads probes : Access → Prop} {here there : Store}

theorem done (result : Except Fault Value)
    (mirrors : here.heap.Mirrors ρ reads probes there.heap) :
    Task.Matches (σ := σ) ρ reads probes (.done result) (.done (result.map ρ.value)) here there := by
  intro outcome after trace observed _
  obtain ⟨rfl, rfl, _⟩ := observed
  exact ⟨there, .empty, rfl, mirrors⟩

theorem look {next other : Store → Task σ}
    (later : Task.Matches ρ reads probes (next here) (other there) here there) :
    Task.Matches ρ reads probes (.look next) (.look other) here there :=
  later

theorem has {target : ContainerId} {key : Key} {next other : Bool → Task σ}
    (mirrors : here.heap.Mirrors ρ reads probes there.heap)
    (later : ∀ present, Task.Matches ρ reads probes (next present) (other present) here there) :
    Task.Matches ρ reads probes (.has target key next) (.has (ρ.container target) key other)
      here there := by
  intro result after trace observed within
  obtain ⟨⟨_, _, rest⟩, followed, same⟩ := Option.map_eq_some_iff.mp observed
  obtain ⟨rfl, rfl, rfl⟩ := same
  obtain ⟨now, after⟩ := Trace.within_append.mp within
  have present := mirrors.probed ⟨target, key⟩ (now.probes _ List.mem_cons_self)
  obtain ⟨otherAfter, otherTrace, otherFollowed, mirrored⟩ := later _ _ _ _ followed after
  refine ⟨otherAfter, Trace.append ⟨[], [⟨ρ.container target, key⟩], []⟩ otherTrace, ?_, mirrored⟩
  rw [Task.observe, present, otherFollowed]
  rfl

theorem track {accesses otherAccesses : Array Access} {next other : Task σ}
    (later : (∀ access ∈ accesses, reads access) →
      Task.Matches ρ reads probes next other (here.track accesses) (there.track otherAccesses)) :
    Task.Matches ρ reads probes (.track accesses next) (.track otherAccesses other) here there := by
  intro result after trace observed within
  obtain ⟨⟨_, _, rest⟩, followed, same⟩ := Option.map_eq_some_iff.mp observed
  obtain ⟨rfl, rfl, rfl⟩ := same
  obtain ⟨now, after⟩ := Trace.within_append.mp within
  have all : ∀ access ∈ accesses, reads access := fun access member =>
    now.reads access (Array.mem_toList_iff.mpr member)
  obtain ⟨otherAfter, otherTrace, otherFollowed, mirrored⟩ := later all _ _ _ followed after
  refine ⟨otherAfter, Trace.append ⟨otherAccesses.toList, [], []⟩ otherTrace, ?_, mirrored⟩
  rw [Task.observe, otherFollowed]
  rfl

theorem make {request other : Request} {next otherNext : Value → Task σ}
    (later : here.heap.copiedBy request = [] →
      Task.Matches ρ reads probes (next (here.perform request).1) (otherNext (there.perform other).1)
        (here.perform request).2 (there.perform other).2) :
    Task.Matches ρ reads probes (.make request next) (.make other otherNext) here there := by
  intro result after trace observed within
  obtain ⟨⟨_, _, rest⟩, followed, same⟩ := Option.map_eq_some_iff.mp observed
  obtain ⟨rfl, rfl, rfl⟩ := same
  obtain ⟨now, after⟩ := Trace.within_append.mp within
  obtain ⟨otherAfter, otherTrace, otherFollowed, mirrored⟩ := later now.copied _ _ _ followed after
  refine ⟨otherAfter, Trace.append ⟨[], [], there.heap.copiedBy other⟩ otherTrace, ?_, mirrored⟩
  rw [Task.observe, otherFollowed]
  rfl

theorem watch {α β : Type} {rename : α → β} {computation : Heap → Watch α}
    {otherComputation : Heap → Watch β} {next : Except Fault α → Task σ}
    {other : Except Fault β → Task σ}
    (same : Watch.Mirrors reads rename (computation here.heap) (otherComputation there.heap))
    (later : ∀ a accesses otherAccesses, Task.Matches ρ reads probes (next (.ok a))
      (other (.ok (rename a))) (here.track accesses) (there.track otherAccesses)) :
    Task.Matches ρ reads probes (TaskM.watch computation next) (TaskM.watch otherComputation other)
      here there := by
  refine Task.Matches.look (Task.Matches.track fun all => ?_)
  have result : (otherComputation there.heap #[]).1 = rename (computation here.heap #[]).1 :=
    same.result #[] #[] all
  rw [result]
  exact later _ _ _

end Task.Matches

/-- Whether the second computation yields the counterpart of what the first yields, whatever comes
after them. -/
def TaskM.Simulates {σ α β : Type} (ρ : Renaming) (reads probes : Access → Prop) (rename : α → β)
    (first : TaskM σ α) (second : TaskM σ β) : Prop :=
  ∀ next other,
    (∀ result here there, here.heap.Mirrors ρ reads probes there.heap →
      Task.Matches ρ reads probes (next result) (other (result.map rename)) here there) →
    ∀ here there, here.heap.Mirrors ρ reads probes there.heap →
      Task.Matches ρ reads probes (first next) (second other) here there

namespace TaskM.Simulates

variable {σ α β γ δ : Type} {ρ : Renaming} {reads probes : Access → Prop} {rename : α → β}

theorem fail (fault : Fault) :
    Simulates (σ := σ) ρ reads probes rename (TaskM.fail fault) (TaskM.fail fault) :=
  fun _ _ later here there mirrors => later (.error fault) here there mirrors

theorem pure {a : α} {b : β} (same : b = rename a) :
    Simulates (σ := σ) ρ reads probes rename (Pure.pure a) (Pure.pure b) := by
  subst same
  exact fun _ _ later here there mirrors => later (.ok a) here there mirrors

theorem bind {renameNext : γ → δ} {first : TaskM σ α} {second : TaskM σ β} {next : α → TaskM σ γ}
    {nextSecond : β → TaskM σ δ} (simulates : Simulates ρ reads probes rename first second)
    (later : ∀ a, Simulates ρ reads probes renameNext (next a) (nextSecond (rename a))) :
    Simulates ρ reads probes renameNext (first >>= next) (second >>= nextSecond) := by
  intro finish otherFinish rest
  refine simulates _ _ fun result here there mirrors => ?_
  cases result with
  | ok a => exact later a finish otherFinish rest here there mirrors
  | error fault => exact rest (.error fault) here there mirrors

theorem look {observe : Heap → α} {other : Heap → β}
    (same : ∀ first second : Heap, first.Mirrors ρ reads probes second →
      other second = rename (observe first)) :
    Simulates (σ := σ) ρ reads probes rename (TaskM.look observe) (TaskM.look other) := by
  intro next otherNext later here there mirrors
  apply Task.Matches.look
  rw [same here.heap there.heap mirrors]
  exact later (.ok (observe here.heap)) here there mirrors

theorem has (target : ContainerId) (key : Key) :
    Simulates (σ := σ) ρ reads probes (fun present => present) (TaskM.has target key)
      (TaskM.has (ρ.container target) key) :=
  fun _ _ later here there mirrors =>
    Task.Matches.has mirrors fun present => later (.ok present) here there mirrors

theorem watch {computation : Heap → Watch α} {other : Heap → Watch β}
    (same : ∀ first second : Heap, first.Mirrors ρ reads probes second →
      Watch.Mirrors reads rename (computation first) (other second)) :
    Simulates (σ := σ) ρ reads probes rename (TaskM.watch computation) (TaskM.watch other) :=
  fun _ _ later here there mirrors =>
    Task.Matches.watch (same here.heap there.heap mirrors) fun a accesses others => by
      apply later (.ok a)
      rw [Store.heap_track, Store.heap_track]
      exact mirrors

theorem container {request other : Request} (tracker : TrackerId) (contents : Contents)
    (made : ∀ store : Store, store.heap.copiedBy request = [] →
      store.perform request = store.madeContainer tracker contents)
    (otherMade : ∀ store : Store, store.heap.copiedBy other = [] →
      store.perform other = store.madeContainer tracker (ρ.contents contents))
    (copied : ∀ first second : Heap, first.Mirrors ρ reads probes second →
      second.copiedBy other = (first.copiedBy request).map ρ.container) :
    Simulates (σ := σ) ρ reads probes ρ.value (TaskM.make request) (TaskM.make other) := by
  intro next otherNext later here there mirrors
  refine Task.Matches.make fun none => ?_
  have noneThere : there.heap.copiedBy other = [] := by
    rw [copied here.heap there.heap mirrors, none, List.map_nil]
  have counterpart : (Value.container ⟨there.heap.containers.size⟩) =
      ρ.value (.container ⟨here.heap.containers.size⟩) :=
    congrArg Value.container (mirrors.nextContainer 0).symm
  rw [made here none, otherMade there noneThere, Store.madeContainer, Store.madeContainer,
    counterpart]
  exact later (.ok (.container ⟨here.heap.containers.size⟩)) _ _
    (mirrors.newContainer tracker contents)

/-- A new array holds the counterparts of the items, for nothing is copied. -/
theorem array (tracker : TrackerId) (items : List Value) :
    Simulates (σ := σ) ρ reads probes ρ.value (TaskM.make (.array tracker items))
      (TaskM.make (.array tracker (items.map ρ.value))) := by
  refine container tracker (.array items.toArray .empty) (fun _ none => Store.perform_array none)
    (fun store none => ?_) fun _ _ mirrors => mirrors.foreignTo tracker items
  rw [Store.perform_array none, Renaming.contents, List.map_toArray]
  rfl

theorem object (tracker : TrackerId) (entries : List (Key × Value)) :
    Simulates (σ := σ) ρ reads probes ρ.value (TaskM.make (.object tracker entries))
      (TaskM.make (.object tracker (entries.map fun entry => (entry.1, ρ.value entry.2)))) := by
  refine container tracker (.object (Assoc.ofList entries)) (fun _ none => Store.perform_object none)
    (fun store none => ?_) fun first second mirrors => ?_
  · rw [Store.perform_object none, Renaming.contents, Assoc.mapValues_ofList]
  · have values : (entries.map fun entry => (entry.1, ρ.value entry.2)).map Prod.snd =
        (entries.map Prod.snd).map ρ.value := by
      rw [List.map_map, List.map_map]
      rfl
    rw [Heap.copiedBy, values]
    exact mirrors.foreignTo tracker (entries.map Prod.snd)

theorem closure (code : Closure) :
    Simulates (σ := σ) ρ reads probes ρ.value (TaskM.make (.closure code))
      (TaskM.make (.closure (ρ.closure code))) := by
  intro next otherNext later here there mirrors
  refine Task.Matches.make fun _ => ?_
  have counterpart : (Value.function ⟨there.heap.closures.size⟩) =
      ρ.value (.function ⟨here.heap.closures.size⟩) :=
    congrArg Value.function (mirrors.nextFunction 0).symm
  change Task.Matches ρ reads probes (next (.ok (.function ⟨here.heap.closures.size⟩)))
    (otherNext (.ok (.function ⟨there.heap.closures.size⟩)))
    { here with heap := (here.heap.newClosure code).2 }
    { there with heap := (there.heap.newClosure (ρ.closure code)).2 }
  rw [counterpart]
  exact later (.ok (.function ⟨here.heap.closures.size⟩)) _ _ (mirrors.newClosure code)

theorem amend (id : EventId) (change : Event → Event) :
    Simulates (σ := σ) ρ reads probes ρ.value (TaskM.make (.amend id change))
      (TaskM.make (.amend (ρ.event id) change)) :=
  fun _ _ later here there mirrors => Task.Matches.make fun _ =>
    later (.ok (.event id)) { here with heap := here.heap.modifyEvent id change }
      { there with heap := there.heap.modifyEvent (ρ.event id) change }
      (mirrors.modifyEvent id change)

/-- A task that writes is not followed, so nothing is required of its counterpart. -/
theorem pop (target : ContainerId) (other : TaskM σ Value) :
    Simulates ρ reads probes ρ.value (TaskM.pop target) other :=
  fun _ _ _ _ _ _ _ _ _ observed => by contradiction

end TaskM.Simulates

end LiveMarkup
