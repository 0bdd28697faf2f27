import LiveMarkup.Proofs.Reactive.Nesting
import LiveMarkup.Proofs.Reactive.Passing

/-!
# Writes that run nothing

Where every effect that has read a container is running, a write to the container stores what it is
to store and runs nothing.  What such a write leads to can therefore be read off the heap: one
container has changed, and copies may have been added.
-/

namespace LiveMarkup

theorem Contents.storeItem_end (items : Array Value) (value : Value) :
    storeItem items items.size value = items.push value := by
  simp [storeItem, resize]

namespace Heap

variable {list : ContainerId} {before between after : Heap}

/-- Whether nothing has changed in a heap but one container, apart from what was added. -/
structure ChangesOnly (list : ContainerId) (before after : Heap) : Prop where
  /-- Containers keep their trackers and their kinds. -/
  keeps : before.Keeps after
  /-- All other containers are as they were. -/
  container : ∀ id : ContainerId, id.index < before.containers.size → id ≠ list →
    after.container id = before.container id

theorem ChangesOnly.of_grows (grows : before.Grows after) : ChangesOnly list before after :=
  ⟨grows.keeps, fun id known _ => grows.container id known⟩

theorem ChangesOnly.trans (first : ChangesOnly list before between)
    (second : ChangesOnly list between after) : ChangesOnly list before after where
  keeps := first.keeps.trans second.keeps
  container id known differs :=
    (second.container id (Nat.lt_of_lt_of_le known first.keeps.size_le) differs).trans
      (first.container id known differs)

theorem ChangesOnly.setContents {heap : Heap} {contents : Contents}
    (kind : contents.isArray = heap.isArray list) :
    ChangesOnly list heap (heap.setContents list contents) where
  keeps := setContents_keeps kind
  container _ _ differs := (container_setContents ..).trans (if_neg fun both => differs both.1)

/-- Whether a value is taken over as another one while nothing but a list has changed. -/
def Adopts (heap : Heap) (list : ContainerId) (value taken : Value) : Prop :=
  ∃ between, heap.ChangesOnly list between ∧ (adopt (heap.owner list) value between).1 = taken

theorem Adopts.of_changed {value taken : Value} (known : list.index < before.containers.size)
    (changed : before.ChangesOnly list after) (adopts : after.Adopts list value taken) :
    before.Adopts list value taken := by
  obtain ⟨between, later, taken⟩ := adopts
  exact ⟨between, changed.trans later, changed.keeps.owner list known ▸ taken⟩

theorem Adopts.of_perform (store : Store) (list : ContainerId) (value : Value) :
    store.heap.Adopts list value (store.perform (.adopt (store.heap.owner list) value)).1 :=
  ⟨store.heap, .of_grows (.refl _), rfl⟩

theorem known_of_array {items : Array Value} {named : Assoc Key Value}
    (contents : before.contents list = .array items named) : list.index < before.containers.size := by
  refine Nat.lt_of_not_le fun unknown => ?_
  rw [Heap.contents, container_of_size_le unknown] at contents
  exact Contents.noConfusion contents

end Heap

namespace Store

variable {store : Store} {list : ContainerId}

theorem changesOnly_put (store : Store) (list : ContainerId) (key : Key) (value : Value) :
    store.heap.ChangesOnly list (store.put list key value).2.heap := by
  have grows := Heap.adopt_allocates (store.heap.owner list) value store.heap
  obtain ⟨taken, heap, adoption, refused | ⟨contents, written, stored⟩⟩ :=
    heap_put_cases store list key value
  · rw [refused]
    rw [adoption] at grows
    exact .of_grows grows
  · rw [stored]
    rw [adoption] at grows
    exact (Heap.ChangesOnly.of_grows grows).trans (.setContents written.isArray)

theorem changesOnly_takeLast (store : Store) (list : ContainerId) :
    store.heap.ChangesOnly list (store.takeLast list).2.2.heap := by
  rcases takeLast_cases store list with nothing | ⟨position, last, rest, popped, taken⟩
  · rw [nothing]
    exact .of_grows (.refl _)
  · rw [taken]
    exact .setContents (isArray_pop popped)

section Array

variable {items : Array Value} {named : Assoc Key Value} {value : Value}
  (contents : store.heap.contents list = .array items named)

include contents

/-- Copying a value for a list leaves the list alone. -/
theorem contents_perform {owner : TrackerId} :
    (store.perform (.adopt owner value)).2.heap.contents list = .array items named := by
  have grows : store.heap.Grows (store.perform (.adopt owner value)).2.heap :=
    Heap.perform_allocates (.adopt owner value) store.heap
  have same := grows.container list (Heap.known_of_array contents)
  exact (congrArg Container.contents same).trans contents

theorem known_of_perform {owner : TrackerId} :
    list.index < (store.perform (.adopt owner value)).2.heap.containers.size :=
  Heap.known_of_array (contents_perform contents)

/-- A write at an index, which is taken below the greatest length and refused otherwise. -/
theorem put_item (position : Nat) :
    let adopted := (store.perform (.adopt (store.heap.owner list) value)).2
    let taken := (store.perform (.adopt (store.heap.owner list) value)).1
    let stored := Contents.array (Contents.storeItem items position taken) named
    store.put list (.index position) value =
      if position < maxArrayLength then
        (.ok (told list (.index position) (.array items named) stored), adopted.setContents list stored)
      else (.error (.indexOutOfRange position maxArrayLength), adopted) := by
  intro adopted taken stored
  have stays : adopted.heap.contents list = .array items named := contents_perform contents
  have performed : store.perform (.adopt (store.heap.owner list) value) = (taken, adopted) := rfl
  have after : adopted.contentsAfter list (.index position) taken =
      (if position < maxArrayLength then .ok stored
        else .error (.indexOutOfRange position maxArrayLength), adopted) := by
    simp only [contentsAfter, stays, Key.isLength, Contents.store]
    rfl
  by_cases room : position < maxArrayLength
  · rw [if_pos room] at after ⊢
    simp only [put, performed, after, stays]
  · rw [if_neg room] at after ⊢
    simp only [put, performed, after]

/-- A write behind the last item. -/
theorem put_append :
    let adopted := (store.perform (.adopt (store.heap.owner list) value)).2
    let taken := (store.perform (.adopt (store.heap.owner list) value)).1
    store.put list (.index items.size) value =
      if items.size < maxArrayLength then
        (.ok [⟨list, .index items.size⟩, ⟨list, .length⟩],
          adopted.setContents list (.array (items.push taken) named))
      else (.error (.indexOutOfRange items.size maxArrayLength), adopted) := by
  intro adopted taken
  have lengthens : told list (.index items.size) (.array items named)
      (.array (items.push taken) named) = [⟨list, .index items.size⟩, ⟨list, .length⟩] := by
    simp [told, Contents.isArray, Contents.count]
  rw [put_item contents items.size, Contents.storeItem_end, lengthens]

end Array

end Store

namespace World

variable {σ : Type} {bound : Nat} {world : World σ} {list : ContainerId}

/-- Whether a world has come from another one by changes of one container, while no effect has run. -/
structure ChangesOnly (list : ContainerId) (before after : World σ) : Prop where
  /-- No other container has changed. -/
  heap : before.store.heap.ChangesOnly list after.store.heap
  /-- No effect has run. -/
  runs : after.store.runs = before.store.runs
  /-- The surroundings are the same. -/
  surroundings : after.surroundings = before.surroundings

theorem ChangesOnly.refl (world : World σ) : world.ChangesOnly list world :=
  ⟨.of_grows (.refl _), rfl, rfl⟩

theorem ChangesOnly.trans {before between after : World σ} (first : before.ChangesOnly list between)
    (second : between.ChangesOnly list after) : before.ChangesOnly list after :=
  ⟨first.heap.trans second.heap, second.runs.trans first.runs,
    second.surroundings.trans first.surroundings⟩

/-- What is known of a world in which a change of a container has been stored and told. -/
structure Rested (list : ContainerId) (world : World σ) (heap : Heap) (after : World σ) : Prop where
  /-- The heap is what was stored. -/
  heap : after.store.heap = heap
  /-- Nothing else has changed. -/
  changes : world.ChangesOnly list after
  /-- Again all readers of the container are running. -/
  engaged : after.store.Engaged (· = list)

/-- Telling readers who are all running changes nothing but the list of faults. -/
theorem rested_of_told {changed : List Access} {written : Store}
    (inside : ∀ access ∈ changed, access.container = list) (engaged : written.Engaged (· = list))
    (heap : world.store.heap.ChangesOnly list written.heap) (runs : written.runs = world.store.runs) :
    world.Rested list written.heap
      (changed.foldl (trigger (runEffect bound)) { world with store := written }) := by
  obtain ⟨store, told, same⟩ : ∃ store,
      changed.foldl (trigger (runEffect bound)) { world with store := written } =
        { world with store := store } ∧ store.quiet = written.quiet :=
    triggerAll_of_engaged engaged inside
  have heaps : store.heap = written.heap := Store.heap_eq_of_quiet same
  have counts : store.quiet.runs = written.quiet.runs := congrArg Store.runs same
  rw [told]
  constructor
  · exact heaps
  · exact ⟨heaps ▸ heap, counts.trans runs, rfl⟩
  · exact engaged.of_quiet same

/-- A write ends as the container takes it or refuses it. -/
theorem tryWrite_ends (bound : Nat) (engaged : world.store.Engaged (· = list)) (key : Key) (value : Value) :
    ∃ after, (TaskM.tryWrite list key value).Ends (runEffect bound) world
        (.ok ((world.store.put list key value).1.map fun _ => ())) after ∧
      world.Rested list (world.store.put list key value).2.heap after := by
  have heap := Store.changesOnly_put world.store list key value
  have runs := Store.runs_put world.store list key value
  have engagedNow := engaged.put list key value
  cases stored : world.store.put list key value with
  | mk result written =>
      rw [stored] at heap runs engagedNow
      cases result with
      | error fault =>
          refine ⟨{ world with store := written }, fun next => ?_, rfl, ⟨heap, runs, rfl⟩, engagedNow⟩
          simp only [TaskM.tryWrite, interpret, write, stored]
          rfl
      | ok changed =>
          obtain ⟨put⟩ := Store.put_ok stored
          exact ⟨_, .tryWrite stored,
            rested_of_told (fun access listed => put.container_of_mem listed) engagedNow heap runs⟩

/-- A write whose refusal is only reported ends well. -/
theorem set_ends (bound : Nat) (engaged : world.store.Engaged (· = list)) (key : Key) (value : Value) :
    ∃ after, (TaskM.set list key value).Ends (runEffect bound) world (.ok ()) after ∧
      world.Rested list (world.store.put list key value).2.heap after := by
  obtain ⟨between, ends, rested⟩ := tryWrite_ends bound engaged key value
  cases stored : (world.store.put list key value).1 with
  | ok changed =>
      rw [stored] at ends
      exact ⟨between, ends.bind (.pure () between), rested⟩
  | error fault =>
      rw [stored] at ends
      let reported := between.mapStore fun store =>
        store.report (between.store.heap.owner list) (.reactive fault)
      have same : reported.store.quiet = between.store.quiet := Store.quiet_report _ _ _
      refine ⟨reported, ends.bind (.bind (.look _ between) (.report _ _ between)), rested.heap, ?_,
        rested.engaged.of_quiet same⟩
      exact ⟨rested.changes.heap, rested.changes.runs, rested.changes.surroundings⟩

/-- Appending is a write behind the last item, and answers with the next length in any case. -/
theorem push_ends (bound : Nat) {items : Array Value} {named : Assoc Key Value} (value : Value)
    (contents : world.store.heap.contents list = .array items named)
    (engaged : world.store.Engaged (· = list)) :
    ∃ after, (TaskM.push list value).Ends (runEffect bound) world (.ok (items.size + 1)) after ∧
      world.Rested list (world.store.put list (.index items.size) value).2.heap after := by
  obtain ⟨after, sets, rested⟩ := set_ends bound engaged (.index items.size) value
  have looks : (TaskM.look fun heap => heap.contents list).Ends (runEffect bound) world
      (.ok (.array items named)) world := contents ▸ .look _ world
  exact ⟨after, looks.bind (sets.bind (.pure _ after)), rested⟩

/-- Removing the last item gives it. -/
theorem pop_ends (bound : Nat) (engaged : world.store.Engaged (· = list)) :
    ∃ after, (TaskM.pop list).Ends (runEffect bound) world (.ok (world.store.takeLast list).1) after ∧
      world.Rested list (world.store.takeLast list).2.2.heap after := by
  refine ⟨_, .pop list world, ?_⟩
  have heap := Store.changesOnly_takeLast world.store list
  rcases Store.takeLast_cases world.store list with nothing | ⟨position, last, rest, popped, taken⟩
  · rw [nothing] at heap ⊢
    exact rested_of_told (by simp) engaged heap rfl
  · rw [taken] at heap ⊢
    exact rested_of_told (by simp) (engaged.of_trackers rfl) heap rfl

end World

end LiveMarkup
