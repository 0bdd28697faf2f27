import LiveMarkup.Proofs.Heap.Sharing
import LiveMarkup.Proofs.Key
import LiveMarkup.Proofs.Reactive.Grounded

/-!
# A veiled property

Two data objects are alike but for one property, and bindings hide the name of that property from
code.  The code starts once over the first object and once over the second one, in the same heap.
Each of the two runs has its own object for itself and shares all other containers that it can get
at with the other run; the functions it makes differ in the object that they belong to.
-/

namespace LiveMarkup

/-- Two data objects in a heap, and a name of theirs that code does not get at. -/
structure Veil where
  /-- The heap that both runs start with. -/
  origin : Heap
  /-- The tracker that new containers belong to. -/
  tracker : TrackerId
  /-- The data of the first run. -/
  first : ContainerId
  /-- The data of the second run. -/
  second : ContainerId
  /-- The name that is bound. -/
  name : String
  /-- The containers that code can get at. -/
  inside : ContainerId → Prop
  first_outside : ¬inside first
  second_outside : ¬inside second
  owner_eq : origin.owner second = origin.owner first

namespace Veil

variable (veil : Veil)

/-- The key of the property that is hidden. -/
def key : Key := Key.ofText veil.name

/-- The properties that a run over some data may write. -/
def Allows (data id : ContainerId) (key : Key) : Prop := veil.inside id ∨ id = data ∧ key ≠ veil.key

/-- Whether bindings hide the name and give access to nothing that is out of reach. -/
structure Hides (bindings : Bindings) : Prop where
  /-- The name is bound. -/
  bound : bindings.contains veil.name = true
  /-- What is bound is in reach. -/
  within : ∀ entry ∈ bindings.entries, entry.2.In veil.inside

/-- The heap of a run over some data, as far as the other run does not matter. -/
structure Side (data : ContainerId) (heap : Heap) : Prop where
  /-- The data is an object. -/
  isObject : heap.isArray data = false
  /-- It keeps its tracker. -/
  owner : heap.owner data = veil.origin.owner data
  /-- Its other properties hold what is in reach. -/
  within : ∀ key, key ≠ veil.key → (heap.peek data key).In veil.inside
  /-- The hidden property has the value that it had. -/
  kept : heap.peek data veil.key = veil.origin.peek data veil.key
  /-- It is there if it was. -/
  present : heap.contains data veil.key = veil.origin.contains data veil.key
  /-- What is out of reach is as it was. -/
  spared : ∀ id, ¬veil.inside id → id ≠ data → heap.container id = veil.origin.container id
  /-- The functions that were there are as they were. -/
  functions : ∀ index, index < veil.origin.closures.size →
    heap.closures[index]? = veil.origin.closures[index]?

/-- Whether two functions come from the same place in the two runs. -/
def Twin (here there : Closure) : Prop :=
  ∃ params body bindings, veil.Hides bindings ∧
    here = ⟨params, body, ⟨veil.tracker, some veil.first⟩, bindings⟩ ∧
    there = ⟨params, body, ⟨veil.tracker, some veil.second⟩, bindings⟩

/-- Whether the heaps of the two runs correspond. -/
structure Alike (here there : Heap) : Prop where
  /-- What is in reach is the same. -/
  shares : here.Shares veil.inside there
  /-- The first run has the first object for itself. -/
  left : veil.Side veil.first here
  /-- The second run has the second object for itself. -/
  right : veil.Side veil.second there
  /-- The two objects agree on the values of all other properties. -/
  peek : ∀ key, key ≠ veil.key → there.peek veil.second key = here.peek veil.first key
  /-- They have the same other properties. -/
  contains : ∀ key, key ≠ veil.key → there.contains veil.second key = here.contains veil.first key
  /-- There are as many functions. -/
  size : there.closures.size = here.closures.size
  /-- Functions that were made correspond. -/
  made : ∀ index, veil.origin.closures.size ≤ index → ∀ code, here.closures[index]? = some code →
    ∃ twin, there.closures[index]? = some twin ∧ veil.Twin code twin

variable {veil} {data : ContainerId} {heap here there : Heap}

/-! ## One run -/

namespace Side

variable (side : veil.Side data heap)

include side

/-- Only what is out of reach matters. -/
theorem frame {after : Heap} (outside : ¬veil.inside data)
    (same : ∀ id, ¬veil.inside id → after.container id = heap.container id)
    (functions : ∀ index, index < veil.origin.closures.size →
      after.closures[index]? = heap.closures[index]?) : veil.Side data after := by
  have contents : after.contents data = heap.contents data :=
    congrArg Container.contents (same data outside)
  exact
    { isObject := (congrArg Contents.isArray contents).trans side.isObject
      owner := (congrArg Container.owner (same data outside)).trans side.owner
      within := fun key differs => by
        rw [Heap.peek, contents]
        exact side.within key differs
      kept := by
        rw [Heap.peek, contents]
        exact side.kept
      present := by
        rw [Heap.contains, contents]
        exact side.present
      spared := fun id away differs => (same id away).trans (side.spared id away differs)
      functions := fun index earlier =>
        (functions index earlier).trans (side.functions index earlier) }

/-- A function that is added is none of those that were there. -/
theorem getElem?_push {index : Nat} (earlier : index < veil.origin.closures.size) (code : Closure) :
    (heap.closures.push code)[index]? = heap.closures[index]? := by
  have there := side.functions index earlier
  rw [Array.getElem?_eq_getElem earlier] at there
  have known := (Array.getElem?_eq_some_iff.mp there).1
  rw [Array.getElem?_push_lt known, Array.getElem?_eq_getElem known]

/-- A write to another property of the data. -/
theorem store {key : Key} {value : Value} {contents : Contents}
    (known : data.index < heap.containers.size) (unlike : key ≠ veil.key)
    (within : value.In veil.inside) (stored : (heap.contents data).store key value = .ok contents) :
    veil.Side data (heap.setContents data contents) := by
  have isObject : (heap.contents data).isArray = false := side.isObject
  have now : (heap.setContents data contents).contents data = contents :=
    Heap.contents_setContents known contents
  exact
    { isObject := by
        rw [Heap.isArray, now]
        exact (Contents.isArray_store stored).trans isObject
      owner := (Heap.owner_setContents heap data data contents).trans side.owner
      within := fun other differs => by
        rw [Heap.peek, now]
        by_cases here : other = key
        · rw [here, Contents.lookup_store_self stored (.inr isObject)]
          exact within
        · rw [Contents.lookup_store stored here (.inr isObject)]
          exact side.within other differs
      kept := by
        rw [Heap.peek, now, Contents.lookup_store stored unlike.symm (.inr isObject)]
        exact side.kept
      present := by
        rw [Heap.contains, now, Contents.contains_store stored unlike.symm (.inl isObject)]
        exact side.present
      spared := fun id away differs => by
        rw [Heap.container_setContents, if_neg fun both => differs both.1]
        exact side.spared id away differs
      functions := side.functions }

end Side

/-! ## Both runs -/

namespace Alike

variable (alike : veil.Alike here there)

include alike

theorem lt_of_outside {id : ContainerId} (outside : ¬veil.inside id) :
    id.index < here.containers.size :=
  Nat.lt_of_not_le fun unknown => outside (alike.shares.fresh id unknown)

/-- What is shared may change in the same way. -/
theorem reshape {after afterThere : Heap} (shares : after.Shares veil.inside afterThere)
    (same : ∀ id, ¬veil.inside id → after.container id = here.container id)
    (sameThere : ∀ id, ¬veil.inside id → afterThere.container id = there.container id)
    (functions : after.closures = here.closures) (functionsThere : afterThere.closures = there.closures) :
    veil.Alike after afterThere := by
  have contents : after.contents veil.first = here.contents veil.first :=
    congrArg Container.contents (same _ veil.first_outside)
  have contentsThere : afterThere.contents veil.second = there.contents veil.second :=
    congrArg Container.contents (sameThere _ veil.second_outside)
  exact
    { shares := shares
      left := alike.left.frame veil.first_outside same fun index _ => by rw [functions]
      right := alike.right.frame veil.second_outside sameThere fun index _ => by rw [functionsThere]
      peek := fun key differs => by
        rw [Heap.peek, contentsThere, Heap.peek, contents]
        exact alike.peek key differs
      contains := fun key differs => by
        rw [Heap.contains, contentsThere, Heap.contains, contents]
        exact alike.contains key differs
      size := by rw [functions, functionsThere, alike.size]
      made := by
        rw [functions, functionsThere]
        exact alike.made }

/-- Containers are made in the same way. -/
theorem allocate {α : Type} {good : α → Prop} {computation : StateM Heap α}
    (inStep : Heap.InStep veil.inside good computation) (allocates : Heap.Allocates computation)
    (functions : ∀ heap : Heap, (computation heap).2.closures = heap.closures) :
    (computation there).1 = (computation here).1 ∧ good (computation here).1 ∧
      veil.Alike (computation here).2 (computation there).2 := by
  obtain ⟨same, holds, shares⟩ := inStep here there alike.shares
  refine ⟨same, holds, alike.reshape shares (fun id outside => ?_) (fun id outside => ?_)
    (functions here) (functions there)⟩
  · exact (allocates here).container id (alike.lt_of_outside outside)
  · exact (allocates there).container id (alike.shares.size ▸ alike.lt_of_outside outside)

theorem modifyEvent (id : EventId) (change : Event → Event) :
    veil.Alike (here.modifyEvent id change) (there.modifyEvent id change) := by
  have shares : (here.modifyEvent id change).Shares veil.inside (there.modifyEvent id change) :=
    { size := alike.shares.size
      container := alike.shares.container
      encloses := alike.shares.encloses
      fresh := alike.shares.fresh
      events := congrArg (fun events => events.modify id.index change) alike.shares.events }
  exact alike.reshape shares (fun _ _ => rfl) (fun _ _ => rfl) rfl rfl

/-- A shared container gets other contents. -/
theorem setContents {id : ContainerId} (member : veil.inside id) {contents : Contents}
    (within : ∀ value ∈ contents.values, value.In veil.inside) :
    veil.Alike (here.setContents id contents) (there.setContents id contents) := by
  have shares : (here.setContents id contents).Shares veil.inside (there.setContents id contents) :=
    { size := by rw [Heap.size_setContents, Heap.size_setContents, alike.shares.size]
      container := fun other inside => by
        rw [Heap.container_setContents, Heap.container_setContents, alike.shares.size,
          alike.shares.container other inside]
      encloses := fun other inside value held => by
        rw [Heap.contents, Heap.container_setContents] at held
        split at held
        · exact within value held
        · exact alike.shares.encloses other inside value held
      fresh := fun other new => alike.shares.fresh other (by rwa [Heap.size_setContents] at new)
      events := alike.shares.events }
  have elsewhere (heap : Heap) (other : ContainerId) (outside : ¬veil.inside other) :
      (heap.setContents id contents).container other = heap.container other := by
    have differs : other ≠ id := fun same => outside (same ▸ member)
    rw [Heap.container_setContents, if_neg fun both => differs both.1]
  exact alike.reshape shares (elsewhere here) (elsewhere there) rfl rfl

/-- A function is made over the data of each run. -/
theorem newClosure {params : List String} {body : Expr} {bindings : Bindings}
    (hides : veil.Hides bindings) :
    veil.Alike (here.newClosure ⟨params, body, ⟨veil.tracker, some veil.first⟩, bindings⟩).2
      (there.newClosure ⟨params, body, ⟨veil.tracker, some veil.second⟩, bindings⟩).2 where
  shares := ⟨alike.shares.size, alike.shares.container, alike.shares.encloses, alike.shares.fresh,
    alike.shares.events⟩
  left := alike.left.frame veil.first_outside (fun _ _ => rfl) fun _ earlier =>
    alike.left.getElem?_push earlier _
  right := alike.right.frame veil.second_outside (fun _ _ => rfl) fun _ earlier =>
    alike.right.getElem?_push earlier _
  peek := alike.peek
  contains := alike.contains
  size := by simp [Heap.newClosure, alike.size]
  made index later code found := by
    simp only [Heap.newClosure, Array.getElem?_push, alike.size] at found ⊢
    by_cases last : index = here.closures.size
    · rw [if_pos last] at found ⊢
      obtain rfl := Option.some.inj found
      exact ⟨_, rfl, params, body, bindings, hides, rfl, rfl⟩
    · rw [if_neg last] at found ⊢
      exact alike.made index later code found

/-- Each run writes to its own data. -/
theorem store {key : Key} {value : Value} {contents other : Contents} (unlike : key ≠ veil.key)
    (within : value.In veil.inside)
    (stored : (here.contents veil.first).store key value = .ok contents)
    (storedThere : (there.contents veil.second).store key value = .ok other) :
    veil.Alike (here.setContents veil.first contents) (there.setContents veil.second other) := by
  have known := alike.lt_of_outside veil.first_outside
  have knownThere : veil.second.index < there.containers.size :=
    alike.shares.size ▸ alike.lt_of_outside veil.second_outside
  have isObject : (here.contents veil.first).isArray = false := alike.left.isObject
  have isObjectThere : (there.contents veil.second).isArray = false := alike.right.isObject
  have now := Heap.contents_setContents known contents
  have nowThere := Heap.contents_setContents knownThere other
  have elsewhere {heap : Heap} {data id : ContainerId} (outside : ¬veil.inside data)
      (member : veil.inside id) (contents : Contents) :
      (heap.setContents data contents).container id = heap.container id := by
    have differs : id ≠ data := fun same => outside (same ▸ member)
    rw [Heap.container_setContents, if_neg fun both => differs both.1]
  exact
    { shares :=
        { size := by rw [Heap.size_setContents, Heap.size_setContents, alike.shares.size]
          container := fun id member => by
            rw [elsewhere veil.first_outside member, elsewhere veil.second_outside member,
              alike.shares.container id member]
          encloses := fun id member value held => by
            rw [Heap.contents, elsewhere veil.first_outside member] at held
            exact alike.shares.encloses id member value held
          fresh := fun id new => alike.shares.fresh id (by rwa [Heap.size_setContents] at new)
          events := alike.shares.events }
      left := alike.left.store known unlike within stored
      right := alike.right.store knownThere unlike within storedThere
      peek := fun read differs => by
        rw [Heap.peek, nowThere, Heap.peek, now]
        by_cases same : read = key
        · rw [same, Contents.lookup_store_self stored (.inr isObject),
            Contents.lookup_store_self storedThere (.inr isObjectThere)]
        · rw [Contents.lookup_store stored same (.inr isObject),
            Contents.lookup_store storedThere same (.inr isObjectThere)]
          exact alike.peek read differs
      contains := fun read differs => by
        rw [Heap.contains, nowThere, Heap.contains, now]
        by_cases same : read = key
        · rw [same, Contents.contains_store_self stored isObject,
            Contents.contains_store_self storedThere isObjectThere]
        · rw [Contents.contains_store stored same (.inl isObject),
            Contents.contains_store storedThere same (.inl isObjectThere)]
          exact alike.contains read differs
      size := alike.size
      made := alike.made }

/-- A function has as many parameters in both runs. -/
theorem arity (id : FunctionId) : there.arity id = here.arity id := by
  rw [Heap.arity, Heap.arity]
  by_cases earlier : id.index < veil.origin.closures.size
  · rw [alike.left.functions _ earlier, alike.right.functions _ earlier]
  · cases found : here.closures[id.index]? with
    | none =>
        rw [Array.getElem?_eq_none_iff, ← alike.size, ← Array.getElem?_eq_none_iff] at found
        rw [found]
    | some code =>
        obtain ⟨twin, foundThere, params, body, bindings, -, rfl, rfl⟩ :=
          alike.made _ (Nat.le_of_not_lt earlier) code found
        rw [foundThere]
        rfl

end Alike

end Veil

/-! ## Writes -/

namespace Store

variable {inside : ContainerId → Prop} {here there : Store} {id : ContainerId} {key : Key}
  {value : Value}

theorem lengthOf_fst (store : Store) (value : Value) :
    (store.lengthOf value).1 =
      (Contents.validLength? ((store.heap.toNumber value).run #[]).1).elim
        (.error (.invalidLength ((store.heap.display value).run #[]).1)) .ok := by
  have first : (store.watch fun heap => heap.toNumber value) =
      (((store.heap.toNumber value).run #[]).1,
        store.track ((store.heap.toNumber value).run #[]).2) := rfl
  simp only [lengthOf, first]
  cases Contents.validLength? ((store.heap.toNumber value).run #[]).1 with
  | some length => rfl
  | none =>
      simp only [watch, heap_track, Option.elim_none]
      rfl

/-- What is written to a shared container is the same. -/
theorem contentsAfter_shared (shares : here.heap.Shares inside there.heap) (member : inside id)
    (key : Key) (within : value.In inside) :
    (there.contentsAfter id key value).1 = (here.contentsAfter id key value).1 := by
  have length : (there.lengthOf value).1 = (here.lengthOf value).1 := by
    rw [lengthOf_fst, lengthOf_fst, shares.toNumber within, shares.display within]
  simp only [contentsAfter, shares.contents member]
  split
  · simp only [length]
  · rfl

theorem contentsAfter_of_object (isObject : here.heap.isArray id = false) (key : Key) (value : Value) :
    here.contentsAfter id key value = ((here.heap.contents id).store key value, here) := by
  have isObject : (here.heap.contents id).isArray = false := isObject
  simp only [contentsAfter, isObject, Bool.and_false, Bool.false_eq_true, if_false]

theorem heap_contentsAfter (store : Store) (id : ContainerId) (key : Key) (value : Value) :
    (store.contentsAfter id key value).2.heap = store.heap := by
  obtain ⟨reads, tracked, -⟩ := contentsAfter_spec store id key value
  rw [tracked, heap_track]

theorem put_eq_error {store adopted after : Store} {taken : Value} {fault : ReactiveFault}
    (performed : store.perform (.adopt (store.heap.owner id) value) = (taken, adopted))
    (refused : adopted.contentsAfter id key taken = (.error fault, after)) :
    store.put id key value = (.error fault, after) := by
  simp only [put, performed, refused]

theorem put_eq_ok {store adopted after : Store} {taken : Value} {contents : Contents}
    (performed : store.perform (.adopt (store.heap.owner id) value) = (taken, adopted))
    (accepted : adopted.contentsAfter id key taken = (.ok contents, after)) :
    store.put id key value =
      (.ok (told id key (after.heap.contents id) contents), after.setContents id contents) := by
  simp only [put, performed, accepted]

end Store

namespace Veil.Alike

variable {veil : Veil} {here there : Store} (alike : veil.Alike here.heap there.heap) {value : Value}

include alike

theorem adopt (tracker : TrackerId) (within : value.In veil.inside) :
    (there.perform (.adopt tracker value)).1 = (here.perform (.adopt tracker value)).1 ∧
      (here.perform (.adopt tracker value)).1.In veil.inside ∧
      veil.Alike (here.perform (.adopt tracker value)).2.heap
        (there.perform (.adopt tracker value)).2.heap :=
  alike.allocate (.adopt within) (Heap.adopt_allocates tracker value)
    (Heap.closures_adopt tracker value)

theorem array (tracker : TrackerId) {items : List Value}
    (within : ∀ item ∈ items, item.In veil.inside) :
    (there.perform (.array tracker items)).1 = (here.perform (.array tracker items)).1 ∧
      (here.perform (.array tracker items)).1.In veil.inside ∧
      veil.Alike (here.perform (.array tracker items)).2.heap
        (there.perform (.array tracker items)).2.heap := by
  have stays (heap : Heap) :
      Heap.StaysWithNew tracker fun after => after.closures = heap.closures := fun _ _ _ same => same
  refine alike.allocate ((Heap.InStep.newArray within).bind fun _ member =>
    .pure (Value.in_container.mpr member)) (Heap.perform_allocates (.array tracker items))
    fun heap => ?_
  have same := Heap.Preserves.newArray (stays heap) items heap rfl
  exact same

theorem object (tracker : TrackerId) {entries : List (Key × Value)}
    (within : ∀ entry ∈ entries, entry.2.In veil.inside) :
    (there.perform (.object tracker entries)).1 = (here.perform (.object tracker entries)).1 ∧
      (here.perform (.object tracker entries)).1.In veil.inside ∧
      veil.Alike (here.perform (.object tracker entries)).2.heap
        (there.perform (.object tracker entries)).2.heap := by
  have stays (heap : Heap) :
      Heap.StaysWithNew tracker fun after => after.closures = heap.closures := fun _ _ _ same => same
  refine alike.allocate ((Heap.InStep.newObject within).bind fun _ member =>
    .pure (Value.in_container.mpr member)) (Heap.perform_allocates (.object tracker entries))
    fun heap => ?_
  have same := Heap.Preserves.newObject (stays heap) entries heap rfl
  exact same

/-- Both runs write to a container that they share. -/
theorem put {id : ContainerId} (member : veil.inside id) (key : Key) (within : value.In veil.inside) :
    (there.put id key value).1 = (here.put id key value).1 ∧
      veil.Alike (here.put id key value).2.heap (there.put id key value).2.heap := by
  obtain ⟨same, held, adopted⟩ := alike.adopt (here.heap.owner id) within
  cases performed : here.perform (.adopt (here.heap.owner id) value) with
  | mk taken store =>
  cases performedThere : there.perform (.adopt (there.heap.owner id) value) with
  | mk takenThere storeThere =>
  rw [alike.shares.owner member] at performedThere
  rw [performed, performedThere] at same adopted
  rw [performed] at held
  obtain rfl : takenThere = taken := same
  have outcomes := Store.contentsAfter_shared adopted.shares member key held
  have heap := Store.heap_contentsAfter store id key takenThere
  have heapThere := Store.heap_contentsAfter storeThere id key takenThere
  obtain ⟨reads, -, written⟩ := Store.contentsAfter_spec store id key takenThere
  rw [← alike.shares.owner member] at performedThere
  cases result : store.contentsAfter id key takenThere with
  | mk outcome after =>
  cases resultThere : storeThere.contentsAfter id key takenThere with
  | mk outcomeThere afterThere =>
  rw [result] at outcomes heap written
  rw [resultThere] at outcomes heapThere
  obtain rfl : outcomeThere = outcome := outcomes
  obtain heap : after.heap = store.heap := heap
  obtain heapThere : afterThere.heap = storeThere.heap := heapThere
  cases outcomeThere with
  | error fault =>
      rw [Store.put_eq_error performed result, Store.put_eq_error performedThere resultThere]
      refine ⟨rfl, ?_⟩
      rw [heap, heapThere]
      exact adopted
  | ok contents =>
      rw [Store.put_eq_ok performed result, Store.put_eq_ok performedThere resultThere, heap,
        heapThere, adopted.shares.contents member]
      refine ⟨rfl, ?_⟩
      change veil.Alike (after.heap.setContents id contents) (afterThere.heap.setContents id contents)
      rw [heap, heapThere]
      refine adopted.setContents member fun value listed => ?_
      rcases (written contents rfl).mem_values listed with old | rfl | rfl
      · exact adopted.shares.encloses id member value old
      · exact held
      · exact Value.IsPlain.inside trivial

/-- Each run writes to another property of its own data. -/
theorem put_data {key : Key} (unlike : key ≠ veil.key) (within : value.In veil.inside) :
    (there.put veil.second key value).1.map (fun _ => ()) =
        (here.put veil.first key value).1.map (fun _ => ()) ∧
      veil.Alike (here.put veil.first key value).2.heap (there.put veil.second key value).2.heap := by
  have owner : there.heap.owner veil.second = here.heap.owner veil.first := by
    rw [alike.right.owner, alike.left.owner, veil.owner_eq]
  obtain ⟨same, held, adopted⟩ := alike.adopt (here.heap.owner veil.first) within
  cases performed : here.perform (.adopt (here.heap.owner veil.first) value) with
  | mk taken store =>
  cases performedThere : there.perform (.adopt (there.heap.owner veil.second) value) with
  | mk takenThere storeThere =>
  rw [owner] at performedThere
  rw [performed, performedThere] at same adopted
  rw [performed] at held
  obtain rfl : takenThere = taken := same
  rw [← owner] at performedThere
  have accepted {heap : Heap} {data : ContainerId} (isObject : heap.isArray data = false) :
      ∃ contents, (heap.contents data).store key takenThere = .ok contents := by
    rw [Heap.isArray] at isObject
    cases contents : heap.contents data with
    | object properties => exact ⟨_, rfl⟩
    | array items named => simp [contents, Contents.isArray] at isObject
  obtain ⟨contents, stored⟩ := accepted adopted.left.isObject
  obtain ⟨other, storedThere⟩ := accepted adopted.right.isObject
  have result := Store.contentsAfter_of_object adopted.left.isObject key takenThere
  have resultThere := Store.contentsAfter_of_object adopted.right.isObject key takenThere
  rw [stored] at result
  rw [storedThere] at resultThere
  rw [Store.put_eq_ok performed result, Store.put_eq_ok performedThere resultThere]
  exact ⟨rfl, adopted.store unlike held stored storedThere⟩

/-- Both runs take the last item of an array that they share. -/
theorem takeLast {id : ContainerId} (member : veil.inside id) :
    (there.takeLast id).1 = (here.takeLast id).1 ∧ (here.takeLast id).1.In veil.inside ∧
      veil.Alike (here.takeLast id).2.2.heap (there.takeLast id).2.2.heap := by
  have contents := alike.shares.contents member
  unfold Store.takeLast
  rw [contents]
  cases popped : (here.heap.contents id).pop? with
  | none => exact ⟨rfl, Value.IsPlain.inside trivial, alike⟩
  | some found =>
      obtain ⟨position, last, rest⟩ := found
      refine ⟨rfl, alike.shares.encloses id member last (Contents.mem_values_of_pop popped), ?_⟩
      exact alike.setContents member fun value listed =>
        alike.shares.encloses id member value (Contents.mem_values_pop popped listed)

end Veil.Alike

end LiveMarkup
