import LiveMarkup.Heap.Watch
import LiveMarkup.Proofs.Heap.Change

/-!
# Reads of a container

A container is read in three ways: one property, the number of items or properties, and all items or
properties.  For each of them these lemmas say what it answers and which keys it counts, and when it
answers the same in two contents.
-/

namespace LiveMarkup

namespace Contents

/-- The keys of the items of an array or of the properties of an object, in order. -/
def listedKeys : Contents → List Key
  | object properties => properties.keys
  | array items _ => (List.range items.size).map .index

/-- The keys that a read of all items counts; of an array the length comes first. -/
def itemKeys (contents : Contents) : List Key :=
  if contents.isArray then .length :: contents.listedKeys else contents.listedKeys

/-- The items of an array or the values of an object, in order. -/
def listed (contents : Contents) : List Value := contents.listedKeys.map fun key => contents.lookup key

/-- A container that is listed was held. -/
theorem mem_values_of_mem_listed {contents : Contents} {id : ContainerId}
    (member : .container id ∈ contents.listed) : .container id ∈ contents.values := by
  obtain ⟨key, _, found⟩ := List.mem_map.mp member
  exact mem_values_of_lookup found

theorem length_listedKeys (contents : Contents) : contents.listedKeys.length = contents.count := by
  cases contents with
  | object properties => simp [listedKeys, count, Assoc.keys, Assoc.size]
  | array items named => simp [listedKeys, count]

theorem itemKeys_of_isArray {contents : Contents} (isArray : contents.isArray = true) :
    contents.itemKeys = .length :: contents.listedKeys := by
  rw [itemKeys, if_pos isArray]

/-- Two arrays of the same length have the same keys. -/
theorem listedKeys_eq_of_count_eq {before after : Contents} (isArray : before.isArray = true)
    (kind : after.isArray = before.isArray) (count : after.count = before.count) :
    after.listedKeys = before.listedKeys := by
  cases before with
  | object properties => contradiction
  | array items named =>
      cases after with
      | object properties =>
          rw [isArray] at kind
          contradiction
      | array afterItems afterNamed =>
          change afterItems.size = items.size at count
          rw [listedKeys, listedKeys, count]

end Contents

namespace Heap

/-- Counting the reads of some properties one after another. -/
theorem run_mapM_get (heap : Heap) (id : ContainerId) (keys : List Key) (reads : Array Access) :
    (keys.mapM fun key => heap.get id key).run reads =
      (keys.map fun key => heap.peek id key,
        reads ++ (keys.map fun key => (⟨id, key⟩ : Access)).toArray) := by
  induction keys generalizing reads with
  | nil =>
      rw [List.mapM_nil, List.map_nil, List.map_nil, Array.append_empty]
      rfl
  | cons key rest ih =>
      rw [List.mapM_cons]
      have first : (heap.get id key).run reads = (heap.peek id key, reads.push ⟨id, key⟩) := rfl
      change (let (head, middle) := (heap.get id key).run reads
        let (tail, final) := (rest.mapM fun key => heap.get id key).run middle
        (head :: tail, final)) = _
      simp only [first, ih, List.map_cons]
      simp

theorem run_items (heap : Heap) (id : ContainerId) (reads : Array Access) :
    (heap.items id).run reads =
      ((heap.contents id).listed,
        reads ++ ((heap.contents id).itemKeys.map fun key => (⟨id, key⟩ : Access)).toArray) := by
  unfold items
  cases holds : heap.contents id with
  | object properties =>
      have all := run_mapM_get heap id properties.keys reads
      simp only [peek, holds] at all
      exact all
  | array items named =>
      have all := run_mapM_get heap id ((List.range items.size).map .index)
        (reads.push ⟨id, .length⟩)
      rw [List.mapM_map] at all
      simp only [peek, holds] at all
      have first : (heap.length id).run reads = (items.size, reads.push ⟨id, .length⟩) := by
        change ((heap.contents id).count, reads.push ⟨id, .length⟩) = _
        rw [holds]
        rfl
      change (let (length, middle) := (heap.length id).run reads
        ((List.range length).mapM fun position => heap.get id (.index position)).run middle) = _
      simp only [first]
      refine all.trans ?_
      simp [Contents.listed, Contents.listedKeys, Contents.itemKeys, Contents.isArray]

end Heap

/-- What a read may answer. -/
inductive Answer where
  /-- The value of a property. -/
  | value (value : Value)
  /-- A number of items or properties. -/
  | count (count : Nat)
  /-- All items or the values of all properties. -/
  | values (values : List Value)
  deriving DecidableEq

/-- The ways to read a container. -/
inductive Read where
  /-- Reads one property. -/
  | get (key : Key)
  /-- Counts the items or properties. -/
  | length
  /-- Reads all items or properties. -/
  | items
  deriving DecidableEq

namespace Read

/-- The computation that a read of a container is. -/
def watch (heap : Heap) (id : ContainerId) : Read → Watch Answer
  | get key => do return .value (← heap.get id key)
  | length => do return .count (← heap.length id)
  | items => do return .values (← heap.items id)

/-- What a read answers. -/
def answer (heap : Heap) (id : ContainerId) (read : Read) : Answer :=
  ((read.watch heap id).run #[]).1

/-- The properties that a read counts. -/
def accesses (heap : Heap) (id : ContainerId) (read : Read) : Array Access :=
  ((read.watch heap id).run #[]).2

/-- The keys that a read counts. -/
def keys (contents : Contents) : Read → List Key
  | get key => [key]
  | length => [.length]
  | items => contents.itemKeys

/-- What a read answers about contents. -/
def answerOf (contents : Contents) : Read → Answer
  | get key => .value (contents.lookup key)
  | length => .count contents.count
  | items => .values contents.listed

theorem run_watch (heap : Heap) (id : ContainerId) (read : Read) (reads : Array Access) :
    (read.watch heap id).run reads =
      (read.answerOf (heap.contents id),
        reads ++ ((read.keys (heap.contents id)).map fun key => (⟨id, key⟩ : Access)).toArray) := by
  cases read with
  | get key =>
      change (Answer.value (heap.peek id key), reads.push ⟨id, key⟩) = _
      rw [keys, List.map_singleton, ← Array.push_eq_append]
      rfl
  | length =>
      change (Answer.count (heap.contents id).count, reads.push ⟨id, .length⟩) = _
      rw [keys, List.map_singleton, ← Array.push_eq_append]
      rfl
  | items =>
      change (let (values, final) := (heap.items id).run reads
        (Answer.values values, final)) = _
      rw [Heap.run_items]
      rfl

theorem answer_eq (heap : Heap) (id : ContainerId) (read : Read) :
    read.answer heap id = read.answerOf (heap.contents id) := by
  rw [answer, run_watch]

theorem mem_accesses {heap : Heap} {id : ContainerId} {read : Read} {access : Access} :
    access ∈ read.accesses heap id ↔
      access.container = id ∧ access.key ∈ read.keys (heap.contents id) := by
  rw [accesses, run_watch]
  simp only [Array.empty_append, List.mem_toArray, List.mem_map]
  constructor
  · rintro ⟨key, member, rfl⟩
    exact ⟨rfl, member⟩
  · rintro ⟨rfl, member⟩
    exact ⟨access.key, member, rfl⟩

/-- A read of an array answers the same if all that it counts is alike. -/
theorem answerOf_eq_of_alike (read : Read) {before after : Contents}
    (isArray : before.isArray = true) (kind : after.isArray = before.isArray)
    (alike : ∀ key ∈ read.keys before, before.Alike after key) :
    read.answerOf after = read.answerOf before := by
  cases read with
  | get key => rw [answerOf, (alike key List.mem_cons_self).value, answerOf]
  | length =>
      rw [answerOf, (alike .length List.mem_cons_self).count isArray rfl, answerOf]
  | items =>
      simp only [keys, Contents.itemKeys_of_isArray isArray] at alike
      have count := (alike .length List.mem_cons_self).count isArray rfl
      have same : after.listed = before.listed := by
        rw [Contents.listed, Contents.listedKeys_eq_of_count_eq isArray kind count, Contents.listed]
        exact List.map_congr_left fun key member =>
          (alike key (List.mem_cons_of_mem _ member)).value
      rw [answerOf, same, answerOf]

end Read

end LiveMarkup
