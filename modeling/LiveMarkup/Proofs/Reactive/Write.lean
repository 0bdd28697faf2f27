import LiveMarkup.Proofs.Reactive.Subscription

/-!
# Writes to the store

What a write that is not refused does before any effect runs: the value is taken over, the contents
of one container are replaced, and the properties whose readers are to be told are listed.  The
statements here describe that step for every container and every key.
-/

namespace LiveMarkup

namespace Heap

theorem container_setContents (heap : Heap) (id other : ContainerId) (contents : Contents) :
    (heap.setContents id contents).container other =
      if other = id ∧ id.index < heap.containers.size then
        { heap.container other with contents := contents }
      else heap.container other := by
  simp only [setContents, container, Array.getElem?_modify]
  by_cases same : other = id
  · subst same
    by_cases known : other.index < heap.containers.size <;> simp [known]
  · have differs : ¬id.index = other.index := fun equal =>
      same (by cases id; cases other; simp_all)
    simp [same, differs]

@[simp] theorem size_setContents (heap : Heap) (id : ContainerId) (contents : Contents) :
    (heap.setContents id contents).containers.size = heap.containers.size := by
  simp [setContents]

@[simp] theorem owner_setContents (heap : Heap) (id other : ContainerId) (contents : Contents) :
    (heap.setContents id contents).owner other = heap.owner other := by
  rw [owner, container_setContents]
  split <;> rfl

theorem contents_setContents {heap : Heap} {id : ContainerId}
    (known : id.index < heap.containers.size) (contents : Contents) :
    (heap.setContents id contents).contents id = contents := by
  rw [Heap.contents, container_setContents, if_pos ⟨rfl, known⟩]

theorem contents_setContents_of_ne {heap : Heap} {id other : ContainerId} (differs : other ≠ id)
    (contents : Contents) : (heap.setContents id contents).contents other = heap.contents other := by
  rw [Heap.contents, container_setContents, if_neg fun both => differs both.1, Heap.contents]

/-- Containers are only added, and each keeps its tracker and its kind. -/
structure Keeps (before after : Heap) : Prop where
  /-- No container is lost. -/
  size_le : before.containers.size ≤ after.containers.size
  /-- A container stays with its tracker. -/
  owner : ∀ id : ContainerId, id.index < before.containers.size → after.owner id = before.owner id
  /-- An array stays an array and an object an object. -/
  isArray : ∀ id : ContainerId, id.index < before.containers.size →
    after.isArray id = before.isArray id

theorem Keeps.refl (heap : Heap) : heap.Keeps heap := ⟨Nat.le_refl _, fun _ _ => rfl, fun _ _ => rfl⟩

theorem Keeps.trans {first second third : Heap} (before : first.Keeps second)
    (after : second.Keeps third) : first.Keeps third where
  size_le := Nat.le_trans before.size_le after.size_le
  owner id known :=
    (after.owner id (Nat.lt_of_lt_of_le known before.size_le)).trans (before.owner id known)
  isArray id known :=
    (after.isArray id (Nat.lt_of_lt_of_le known before.size_le)).trans (before.isArray id known)

theorem Grows.keeps {before after : Heap} (grows : before.Grows after) : before.Keeps after where
  size_le := grows.size_le
  owner id known := by rw [Heap.owner, grows.container id known, Heap.owner]
  isArray id known := by
    rw [Heap.isArray, Heap.contents, grows.container id known, Heap.isArray, Heap.contents]

theorem setContents_keeps {heap : Heap} {id : ContainerId} {contents : Contents}
    (kind : contents.isArray = heap.isArray id) : heap.Keeps (heap.setContents id contents) where
  size_le := Nat.le_of_eq (size_setContents heap id contents).symm
  owner other _ := owner_setContents heap id other contents
  isArray other _ := by
    rw [Heap.isArray, Heap.contents, container_setContents]
    split
    next here =>
      obtain rfl := here.1
      exact kind
    next => rfl

/-- A closed heap stays closed if a container is given what belongs to its tracker. -/
theorem Closed.setContents {heap : Heap} {id : ContainerId} {contents : Contents}
    (closed : heap.Closed)
    (inside : ∀ value ∈ contents.values, heap.Belongs (heap.owner id) value) :
    (heap.setContents id contents).Closed := by
  have stays {tracker : TrackerId} {value : Value} (belongs : heap.Belongs tracker value) :
      (heap.setContents id contents).Belongs tracker value := by
    intro other same
    rw [size_setContents, owner_setContents]
    exact belongs other same
  intro other known value member
  rw [owner_setContents]
  rw [size_setContents] at known
  by_cases here : other = id
  · subst here
    rw [contents_setContents known] at member
    exact stays (inside value member)
  · rw [contents_setContents_of_ne here] at member
    exact stays (closed other known value member)

end Heap

namespace Contents

/-- The contents that a write under a key may lead to: what it stores, or an array of another
length if the key is the array's length. -/
inductive Written (key : Key) (value : Value) (before : Contents) : Contents → Prop
  /-- A value is stored. -/
  | store {after : Contents} (ordinary : key.isLength = false ∨ before.isArray = false)
      (stored : before.store key value = .ok after) : Written key value before after
  /-- An array is given a length. -/
  | resize (length : Nat) (isLength : key = .length) (isArray : before.isArray = true) :
      Written key value before (before.setLength length)

theorem isArray_setLength (length : Nat) (contents : Contents) :
    (contents.setLength length).isArray = contents.isArray := by
  cases contents <;> rfl

theorem Written.isArray {key : Key} {value : Value} {before after : Contents}
    (written : Written key value before after) : after.isArray = before.isArray := by
  cases written with
  | store _ stored => exact isArray_store stored
  | resize length _ _ => exact isArray_setLength length before

theorem Written.mem_values {key : Key} {stored value : Value} {before after : Contents}
    (written : Written key stored before after) (member : value ∈ after.values) :
    value ∈ before.values ∨ value = stored ∨ value = .undefined := by
  cases written with
  | store _ write => exact mem_values_store write member
  | resize length _ _ => exact (mem_values_setLength member).imp_right .inr

end Contents

namespace Store

theorem watch_snd {α : Type} (store : Store) (computation : Heap → Watch α) :
    (store.watch computation).2 = store.track ((computation store.heap).run #[]).2 := rfl

/-- Finding a length only reads. -/
theorem lengthOf_snd (store : Store) (value : Value) :
    ∃ reads, (store.lengthOf value).2 = store.track reads := by
  let first := ((store.heap.toNumber value).run #[]).2
  let second := ((store.heap.display value).run #[]).2
  simp only [lengthOf]
  split
  · exact ⟨first, rfl⟩
  · refine ⟨first ++ second, ?_⟩
    change ((store.track first).watch fun heap => heap.display value).2 = _
    rw [track_append, watch_snd, heap_track]

/-- Finding the new contents only reads, and they are what a write under the key may lead to. -/
theorem contentsAfter_spec (store : Store) (id : ContainerId) (key : Key) (value : Value) :
    ∃ reads, (store.contentsAfter id key value).2 = store.track reads ∧
      ∀ after, (store.contentsAfter id key value).1 = .ok after →
        Contents.Written key value (store.heap.contents id) after := by
  simp only [contentsAfter]
  split
  next both =>
    obtain ⟨isLength, isArray⟩ := Bool.and_eq_true_iff.mp both
    obtain ⟨reads, tracked⟩ := lengthOf_snd store value
    refine ⟨reads, tracked, fun after found => ?_⟩
    cases length : (store.lengthOf value).1 with
    | error fault => simp [length, Except.map] at found
    | ok length' =>
        simp only [length, Except.map] at found
        obtain rfl := Except.ok.inj found
        exact .resize length' (Contents.eq_length_of_isLength isLength) isArray
  next ordinary =>
    refine ⟨#[], rfl, fun after stored => .store ?_ stored⟩
    cases isLength : key.isLength with
    | false => exact .inl rfl
    | true => exact .inr (by simpa [isLength] using ordinary)

/-- What has happened once a write is taken: the value was taken over, reads may have been counted
while a length was found, and the contents were replaced. -/
structure Put (store : Store) (id : ContainerId) (key : Key) (value : Value)
    (changed : List Access) (after : Store) where
  /-- What is stored. -/
  taken : Value
  /-- The heap with what had to be copied. -/
  heap : Heap
  /-- The reads on the way. -/
  reads : Array Access
  /-- What the container holds in the end. -/
  contents : Contents
  adopted : Heap.adopt (store.heap.owner id) value store.heap = (taken, heap)
  written : Contents.Written key taken (heap.contents id) contents
  changed_eq : changed = told id key (heap.contents id) contents
  after_eq : after = ({ store with heap := heap }.track reads).setContents id contents

theorem perform_adopt {store : Store} {tracker : TrackerId} {value taken : Value} {heap : Heap}
    (adoption : Heap.adopt tracker value store.heap = (taken, heap)) :
    store.perform (.adopt tracker value) = (taken, { store with heap := heap }) := by
  simp only [perform, Request.perform, adoption]

/-- A write takes the value over and may count reads; then it is refused, or the contents are
replaced. -/
theorem put_cases (store : Store) (id : ContainerId) (key : Key) (value : Value) :
    ∃ taken heap reads, Heap.adopt (store.heap.owner id) value store.heap = (taken, heap) ∧
      ((∃ fault, store.put id key value = (.error fault, { store with heap := heap }.track reads)) ∨
        ∃ contents, Contents.Written key taken (heap.contents id) contents ∧
          store.put id key value = (.ok (told id key (heap.contents id) contents),
            ({ store with heap := heap }.track reads).setContents id contents)) := by
  cases adoption : Heap.adopt (store.heap.owner id) value store.heap with
  | mk taken heap =>
  obtain ⟨reads, tracked, written⟩ := contentsAfter_spec { store with heap := heap } id key taken
  refine ⟨taken, heap, reads, rfl, ?_⟩
  simp only [put, perform_adopt adoption]
  cases found : contentsAfter { store with heap := heap } id key taken with
  | mk outcome final =>
  rw [found] at tracked written
  obtain rfl : final = _ := tracked
  cases outcome with
  | error fault => exact .inl ⟨fault, rfl⟩
  | ok contents =>
      refine .inr ⟨contents, written contents rfl, ?_⟩
      dsimp only
      rw [heap_track]

theorem put_ok {store after : Store} {id : ContainerId} {key : Key} {value : Value}
    {changed : List Access} (accepted : store.put id key value = (.ok changed, after)) :
    Nonempty (Put store id key value changed after) := by
  obtain ⟨taken, heap, reads, adopted, ⟨fault, refused⟩ | ⟨contents, written, stored⟩⟩ :=
    put_cases store id key value
  · rw [refused] at accepted
    cases accepted
  · rw [stored] at accepted
    obtain ⟨result, rfl⟩ := Prod.mk.inj accepted
    exact ⟨⟨taken, heap, reads, contents, adopted, written, (Except.ok.inj result).symm, rfl⟩⟩

/-- A refused write has at most made copies and counted reads. -/
theorem put_error {store after : Store} {id : ContainerId} {key : Key} {value : Value}
    {fault : ReactiveFault} (refused : store.put id key value = (.error fault, after)) :
    ∃ reads, after =
      { store with heap := (Heap.adopt (store.heap.owner id) value store.heap).2 }.track reads := by
  obtain ⟨taken, heap, reads, adopted, ⟨fault, same⟩ | ⟨contents, -, stored⟩⟩ :=
    put_cases store id key value
  · rw [same] at refused
    rw [adopted]
    exact ⟨reads, (Prod.mk.inj refused).2.symm⟩
  · rw [stored] at refused
    cases refused

/-- After a write the heap is the one that has taken the value over, or has contents replaced in
it. -/
theorem heap_put_cases (store : Store) (id : ContainerId) (key : Key) (value : Value) :
    ∃ taken heap, Heap.adopt (store.heap.owner id) value store.heap = (taken, heap) ∧
      ((store.put id key value).2.heap = heap ∨
        ∃ contents, Contents.Written key taken (heap.contents id) contents ∧
          (store.put id key value).2.heap = heap.setContents id contents) := by
  obtain ⟨taken, heap, reads, adopted, ⟨fault, refused⟩ | ⟨contents, written, stored⟩⟩ :=
    put_cases store id key value
  · refine ⟨taken, heap, adopted, .inl ?_⟩
    rw [refused, heap_track]
  · refine ⟨taken, heap, adopted, .inr ⟨contents, written, ?_⟩⟩
    rw [stored, setContents, heap_track]

namespace Put

variable {store after : Store} {id : ContainerId} {key : Key} {value : Value}
  {changed : List Access}

theorem grows (put : Put store id key value changed after) : store.heap.Grows put.heap := by
  have grows := Heap.adopt_allocates (store.heap.owner id) value store.heap
  rw [put.adopted] at grows
  exact grows

theorem after_heap (put : Put store id key value changed after) :
    after.heap = put.heap.setContents id put.contents := by
  refine (congrArg Store.heap put.after_eq).trans ?_
  rw [setContents, heap_track]

theorem isArray (put : Put store id key value changed after) :
    put.contents.isArray = put.heap.isArray id :=
  put.written.isArray

/-- A write keeps every container with its tracker and its kind. -/
theorem keeps (put : Put store id key value changed after) : store.heap.Keeps after.heap := by
  rw [put.after_heap]
  exact put.grows.keeps.trans (Heap.setContents_keeps put.isArray)

theorem contents_before (put : Put store id key value changed after) {other : ContainerId}
    (known : other.index < store.heap.containers.size) :
    put.heap.contents other = store.heap.contents other := by
  rw [Heap.contents, put.grows.container other known, Heap.contents]

theorem contents_after (put : Put store id key value changed after)
    (known : id.index < store.heap.containers.size) : after.heap.contents id = put.contents := by
  rw [put.after_heap]
  exact Heap.contents_setContents (Nat.lt_of_lt_of_le known put.grows.size_le) put.contents

theorem contents_other (put : Put store id key value changed after) {other : ContainerId}
    (known : other.index < store.heap.containers.size) (differs : other ≠ id) :
    after.heap.contents other = store.heap.contents other := by
  rw [put.after_heap, Heap.contents_setContents_of_ne differs, put.contents_before known]

/-- A write of a value that is in the heap leaves a closed heap closed. -/
theorem closed (put : Put store id key value changed after) (closed : store.heap.Closed)
    (known : id.index < store.heap.containers.size) (supplied : store.heap.Known value) :
    after.heap.Closed := by
  obtain ⟨adoptedClosed, belongs⟩ :=
    Heap.takes_adopt (store.heap.owner id) store.heap value closed supplied
  rw [put.adopted] at adoptedClosed belongs
  have owner : put.heap.owner id = store.heap.owner id := by
    rw [Heap.owner, put.grows.container id known, Heap.owner]
  rw [put.after_heap]
  refine adoptedClosed.setContents fun inside member => ?_
  rw [owner]
  rcases put.written.mem_values member with old | rfl | rfl
  · rw [← owner]
    exact adoptedClosed id (Nat.lt_of_lt_of_le known put.grows.size_le) inside old
  · exact belongs
  · exact Heap.belongs_undefined put.heap _

theorem runs_eq (put : Put store id key value changed after) : after.runs = store.runs := by
  refine (congrArg Store.runs put.after_eq).trans ?_
  rw [setContents, runs_track]

/-- A write only tells about the container that it writes to. -/
theorem container_of_mem (put : Put store id key value changed after) {access : Access}
    (listed : access ∈ changed) : access.container = id := by
  rw [put.changed_eq, told, List.mem_cons] at listed
  rcases listed with rfl | length
  · rfl
  · split at length
    · rw [List.mem_singleton.mp length]
    · contradiction

/-- A write outside every effect subscribes nobody. -/
theorem mem_dependents (put : Put store id key value changed after) {access : Access}
    {effect : EffectId} (known : access.container.index < store.heap.containers.size)
    (idle : (store.tracker (store.heap.owner access.container)).current = none)
    (subscribed : effect ∈ after.dependents access) : effect ∈ store.dependents access := by
  have owner : put.heap.owner access.container = store.heap.owner access.container := by
    rw [Heap.owner, put.grows.container _ known, Heap.owner]
  have counted : effect ∈ ({ store with heap := put.heap }.track put.reads).dependents access := by
    rw [put.after_eq, Store.mem_dependents, setContents, Heap.owner_setContents] at subscribed
    exact Store.mem_dependents.mpr subscribed
  rcases mem_dependents_track.mp counted with old | ⟨_, _, running⟩
  · rw [Store.mem_dependents] at old ⊢
    rw [← owner]
    exact old
  · change (store.tracker (put.heap.owner access.container)).current = some effect at running
    rw [owner, idle] at running
    contradiction

/-- What a write has not told about reads as before, unless the write set an array's length. -/
theorem alike (put : Put store id key value changed after) {access : Access}
    (known : access.container.index < store.heap.containers.size)
    (ordinary : key.isLength = false ∨ store.heap.isArray id = false) (untold : access ∉ changed) :
    (store.heap.contents access.container).Alike (after.heap.contents access.container)
      access.key := by
  by_cases here : access.container = id
  · have idKnown : id.index < store.heap.containers.size := here ▸ known
    rw [put.changed_eq, put.contents_before idKnown, told] at untold
    rw [here, put.contents_after idKnown]
    have written := put.written
    rw [put.contents_before idKnown] at written
    generalize put.contents = contents at written untold ⊢
    cases written with
    | store ordinaryKey stored =>
        refine Contents.alike_of_store stored ?_ fun isArray isLength => ?_
        · intro same
          exact untold (List.mem_cons.mpr (.inl (by rw [← same, ← here])))
        · by_cases count : contents.count = (store.heap.contents id).count
          · exact count
          · refine absurd (List.mem_cons_of_mem _ ?_) untold
            have changes : ((store.heap.contents id).isArray &&
                (store.heap.contents id).count != contents.count && !key.isLength) = true := by
              have notLength : key.isLength = false := ordinaryKey.resolve_right (by simp [isArray])
              have differs : (store.heap.contents id).count ≠ contents.count :=
                fun same => count same.symm
              simp [isArray, differs, notLength]
            rw [if_pos changes, ← isLength, ← here]
            exact List.mem_singleton.mpr rfl
    | resize length isLength isArray =>
        rcases ordinary with notLength | notArray
        · rw [isLength] at notLength
          contradiction
        · rw [Heap.isArray, isArray] at notArray
          contradiction
  · rw [put.contents_other known here]
    exact .refl _ _

end Put

/-! ## The last item -/

/-- Taking the last item away either finds none and does nothing, or replaces the contents. -/
theorem takeLast_cases (store : Store) (id : ContainerId) :
    store.takeLast id = (.undefined, [], store) ∨
      ∃ position last rest, (store.heap.contents id).pop? = some (position, last, rest) ∧
        store.takeLast id =
          (last, [⟨id, .index position⟩, ⟨id, .length⟩], store.setContents id rest) := by
  simp only [takeLast]
  split
  next position last rest popped => exact .inr ⟨position, last, rest, popped, rfl⟩
  next => exact .inl rfl

theorem isArray_pop {position : Nat} {last : Value} {before after : Contents}
    (popped : before.pop? = some (position, last, after)) : after.isArray = before.isArray := by
  obtain ⟨items, named, rfl, -, -, rfl⟩ := Contents.eq_of_pop? popped
  rfl

theorem takeLast_closed {store : Store} {id : ContainerId} (closed : store.heap.Closed)
    (known : id.index < store.heap.containers.size) : (store.takeLast id).2.2.heap.Closed := by
  rcases takeLast_cases store id with nothing | ⟨position, last, rest, popped, taken⟩
  · rw [nothing]
    exact closed
  · rw [taken]
    exact closed.setContents fun value member =>
      closed id known value (Contents.mem_values_pop popped member)

theorem takeLast_keeps (store : Store) (id : ContainerId) :
    store.heap.Keeps (store.takeLast id).2.2.heap := by
  rcases takeLast_cases store id with nothing | ⟨position, last, rest, popped, taken⟩
  · rw [nothing]
    exact Heap.Keeps.refl _
  · rw [taken]
    exact Heap.setContents_keeps (isArray_pop popped)

/-- What is not told about when the last item is taken away reads as before. -/
theorem takeLast_alike {store : Store} {id : ContainerId} {access : Access}
    (known : access.container.index < store.heap.containers.size)
    (untold : access ∉ (store.takeLast id).2.1) :
    (store.heap.contents access.container).Alike
      ((store.takeLast id).2.2.heap.contents access.container) access.key := by
  rcases takeLast_cases store id with nothing | ⟨position, last, rest, popped, taken⟩
  · rw [nothing]
    exact .refl _ _
  · rw [taken] at untold ⊢
    obtain ⟨container, key⟩ := access
    simp only [List.mem_cons, Access.mk.injEq, List.not_mem_nil, or_false, not_or] at untold
    by_cases here : container = id
    · subst here
      rw [setContents, Heap.contents_setContents known]
      exact Contents.alike_of_pop popped (fun same => untold.1 ⟨rfl, same⟩)
        (fun same => untold.2 ⟨rfl, same⟩)
    · rw [setContents, Heap.contents_setContents_of_ne here]
      exact .refl _ _

end Store

end LiveMarkup
