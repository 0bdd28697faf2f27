import LiveMarkup.Proofs.Heap.Change
import LiveMarkup.Reactive.Store

/-!
# Ownership

Making things only ever adds containers, and a container that was there stays as it was.  A heap is
closed if containers hold nothing but containers of their own tracker.  Whatever is made in a closed
heap leaves it closed, and an adopted value belongs to the tracker that has adopted it.
-/

namespace LiveMarkup

/-- What new containers hold: an array has items only, and the properties of an object are set one
after another. -/
inductive Contents.Made : Contents → Prop
  /-- An array is made. -/
  | array (items : Array Value) : Made (.array items .empty)
  /-- An object is made. -/
  | object (entries : List (Key × Value)) : Made (.object (.ofList entries))

namespace Heap

/-! ## Growth -/

/-- The containers of the first heap are there in the second one, unchanged. -/
structure Grows (before after : Heap) : Prop where
  /-- No container is lost. -/
  size_le : before.containers.size ≤ after.containers.size
  /-- Every container is as it was. -/
  container : ∀ id : ContainerId, id.index < before.containers.size →
    after.container id = before.container id

theorem Grows.refl (heap : Heap) : heap.Grows heap := ⟨Nat.le_refl _, fun _ _ => rfl⟩

theorem Grows.trans {first second third : Heap} (before : first.Grows second)
    (after : second.Grows third) : first.Grows third where
  size_le := Nat.le_trans before.size_le after.size_le
  container id known := by
    rw [after.container id (Nat.lt_of_lt_of_le known before.size_le), before.container id known]

theorem Grows.of_containers_eq {before after : Heap}
    (same : after.containers = before.containers) : before.Grows after where
  size_le := Nat.le_of_eq (congrArg Array.size same.symm)
  container id _ := by simp only [Heap.container, same]

theorem container_of_size_le {heap : Heap} {id : ContainerId}
    (missing : heap.containers.size ≤ id.index) : heap.container id = ⟨⟨0⟩, .emptyObject⟩ := by
  rw [container, Array.getElem?_eq_none missing, Option.getD_none]

theorem eq_of_array? {heap : Heap} {value : Value} {id : ContainerId}
    (found : heap.array? value = some id) : value = .container id ∧ heap.isArray id = true := by
  cases value with
  | container other =>
      simp only [array?] at found
      split at found
      next isArray =>
        obtain rfl := Option.some.inj found
        exact ⟨rfl, isArray⟩
      next => contradiction
  | _ => contradiction

theorem container_newContainer (heap : Heap) (owner : TrackerId) (contents : Contents)
    (id : ContainerId) :
    (heap.newContainer owner contents).2.container id =
      if id.index = heap.containers.size then ⟨owner, contents⟩ else heap.container id := by
  simp only [newContainer, container, Array.getElem?_push]
  split <;> rfl

theorem newContainer_grows (heap : Heap) (owner : TrackerId) (contents : Contents) :
    heap.Grows (heap.newContainer owner contents).2 where
  size_le := by simp [newContainer]
  container id known := by rw [container_newContainer, if_neg (Nat.ne_of_lt known)]

/-- Whether a computation keeps a property of the heap. -/
def Preserves {α : Type} (keeps : Heap → Prop) (computation : StateM Heap α) : Prop :=
  ∀ heap : Heap, keeps heap → keeps (computation heap).2

/-- Whether a property of the heap stays when a tracker gets a new container. -/
def StaysWithNew (tracker : TrackerId) (keeps : Heap → Prop) : Prop :=
  ∀ heap contents, Contents.Made contents → keeps heap → keeps (heap.newContainer tracker contents).2

namespace Preserves

variable {keeps : Heap → Prop} {tracker : TrackerId}

theorem pure {α : Type} (a : α) : Preserves keeps (Pure.pure a : StateM Heap α) :=
  fun _ kept => kept

theorem bind {α β : Type} {first : StateM Heap α} {next : α → StateM Heap β}
    (makes : Preserves keeps first) (makesNext : ∀ a, Preserves keeps (next a)) :
    Preserves keeps (first >>= next) :=
  fun heap kept => makesNext _ _ (makes heap kept)

theorem mapM {α β : Type} {make : α → StateM Heap β} (makes : ∀ a, Preserves keeps (make a))
    (list : List α) : Preserves keeps (list.mapM make) := by
  induction list with
  | nil => exact pure []
  | cons head rest ih =>
      rw [List.mapM_cons]
      exact (makes head).bind fun _ => ih.bind fun _ => pure _

theorem buildArray (stays : StaysWithNew tracker keeps) {take : Value → StateM Heap Value}
    (takes : ∀ value, Preserves keeps (take value)) (items : List Value) :
    Preserves keeps (Heap.buildArray tracker take items) :=
  (mapM takes items).bind fun _ heap kept => stays heap _ (.array _) kept

theorem buildObject (stays : StaysWithNew tracker keeps) {take : Value → StateM Heap Value}
    (takes : ∀ value, Preserves keeps (take value)) (entries : List (Key × Value)) :
    Preserves keeps (Heap.buildObject tracker take entries) := by
  have takeEntry (entry : Key × Value) : Preserves keeps (do return (entry.1, ← take entry.2)) :=
    (takes entry.2).bind fun _ => pure _
  exact (mapM takeEntry entries).bind fun _ heap kept => stays heap _ (.object _) kept

theorem rebuild (stays : StaysWithNew tracker keeps) {take : Value → StateM Heap Value}
    (takes : ∀ value, Preserves keeps (take value)) (contents : Contents) :
    Preserves keeps (Heap.rebuild tracker take contents) := by
  cases contents with
  | array items named => exact buildArray stays takes items.toList
  | object properties => exact buildObject stays takes properties.entries

end Preserves

/-! ## Adoption -/

/-- A container of the tracker itself is taken as it is. -/
theorem adoptWithin_of_owner {tracker : TrackerId} {heap : Heap} {id : ContainerId}
    (own : heap.owner id = tracker) (depth : Nat) :
    adoptWithin tracker depth (.container id) heap = (.container id, heap) := by
  cases depth <;>
    · change (if heap.owner id = tracker then _ else _ : StateM Heap Value) heap = _
      rw [if_pos own]
      rfl

theorem adoptWithin_zero {tracker : TrackerId} {heap : Heap} {id : ContainerId}
    (foreign : heap.owner id ≠ tracker) :
    adoptWithin tracker 0 (.container id) heap = (.undefined, heap) := by
  change (if heap.owner id = tracker then _ else _ : StateM Heap Value) heap = _
  rw [if_neg foreign]
  rfl

/-- A foreign container is rebuilt. -/
theorem adoptWithin_succ {tracker : TrackerId} {heap : Heap} {id : ContainerId}
    (foreign : heap.owner id ≠ tracker) (depth : Nat) :
    adoptWithin tracker (depth + 1) (.container id) heap =
      (.container <$> rebuild tracker (adoptWithin tracker depth) (heap.contents id)) heap := by
  change (if heap.owner id = tracker then _ else _ : StateM Heap Value) heap = _
  rw [if_neg foreign]
  rfl

namespace Preserves

variable {keeps : Heap → Prop} {tracker : TrackerId} (stays : StaysWithNew tracker keeps)

include stays

theorem adoptWithin (depth : Nat) (value : Value) :
    Preserves keeps (Heap.adoptWithin tracker depth value) := by
  induction depth generalizing value with
  | zero =>
      cases value with
      | container id =>
          intro heap kept
          by_cases own : heap.owner id = tracker
          · rw [adoptWithin_of_owner own]
            exact kept
          · rw [adoptWithin_zero own]
            exact kept
      | _ => exact pure _
  | succ depth ih =>
      cases value with
      | container id =>
          intro heap kept
          by_cases own : heap.owner id = tracker
          · rw [adoptWithin_of_owner own]
            exact kept
          · rw [adoptWithin_succ own]
            exact rebuild stays ih (heap.contents id) heap kept
      | _ => exact pure _

theorem adopt (value : Value) : Preserves keeps (Heap.adopt tracker value) :=
  fun heap => adoptWithin stays heap.containers.size value heap

theorem newObject (entries : List (Key × Value)) :
    Preserves keeps (Heap.newObject tracker entries) :=
  buildObject stays (adopt stays) entries

theorem newArray (items : List Value) : Preserves keeps (Heap.newArray tracker items) :=
  buildArray stays (adopt stays) items

omit stays

mutual

theorem ofJson (stays : StaysWithNew tracker keeps) : ∀ json, Preserves keeps (Heap.ofJson tracker json)
  | .null | .bool _ | .integer _ | .float _ | .string _ => pure _
  | .array items =>
      (ofJsonItems stays items).bind fun _ => (newArray stays _).bind fun _ => pure _
  | .object members =>
      (ofJsonMembers stays members).bind fun _ => (newObject stays _).bind fun _ => pure _

theorem ofJsonItems (stays : StaysWithNew tracker keeps) :
    ∀ items, Preserves keeps (Heap.ofJsonItems tracker items)
  | [] => pure _
  | item :: rest =>
      (ofJson stays item).bind fun _ => (ofJsonItems stays rest).bind fun _ => pure _

theorem ofJsonMembers (stays : StaysWithNew tracker keeps) :
    ∀ members, Preserves keeps (Heap.ofJsonMembers tracker members)
  | [] => pure _
  | (_, item) :: rest =>
      (ofJson stays item).bind fun _ => (ofJsonMembers stays rest).bind fun _ => pure _

end

end Preserves

/-! ## Nothing but new containers -/

/-- A computation that only adds containers. -/
def Allocates {α : Type} (computation : StateM Heap α) : Prop :=
  ∀ heap : Heap, heap.Grows (computation heap).2

theorem Allocates.of_preserves {α : Type} {computation : StateM Heap α}
    (preserves : ∀ heap : Heap, Preserves heap.Grows computation) : Allocates computation :=
  fun heap => preserves heap heap (.refl heap)

theorem Allocates.preserves {α : Type} {computation : StateM Heap α}
    (allocates : Allocates computation) (heap : Heap) : Preserves heap.Grows computation :=
  fun _ grows => grows.trans (allocates _)

theorem grows_staysWithNew (heap : Heap) (tracker : TrackerId) :
    StaysWithNew tracker heap.Grows :=
  fun before contents _ grows => grows.trans (newContainer_grows before tracker contents)

theorem adoptWithin_allocates (tracker : TrackerId) (depth : Nat) (value : Value) :
    Allocates (adoptWithin tracker depth value) :=
  .of_preserves fun heap => .adoptWithin (grows_staysWithNew heap tracker) depth value

theorem adopt_allocates (tracker : TrackerId) (value : Value) : Allocates (adopt tracker value) :=
  .of_preserves fun heap => .adopt (grows_staysWithNew heap tracker) value

/-- Whether a request may make containers for a tracker. -/
def MakesFor (tracker : TrackerId) : Request → Prop
  | .object other _ | .array other _ | .adopt other _ | .data other _ => other = tracker
  | .closure _ | .event _ | .amend _ _ => False

/-- What new containers do not change is kept by a request. -/
theorem Preserves.perform {keeps : Heap → Prop} {request : Request}
    (stays : ∀ tracker, MakesFor tracker request → StaysWithNew tracker keeps)
    (same : ∀ before after : Heap, after.containers = before.containers → keeps before → keeps after) :
    Preserves keeps request.perform := by
  cases request with
  | object tracker entries => exact (newObject (stays tracker rfl) entries).bind fun _ => .pure _
  | array tracker items => exact (newArray (stays tracker rfl) items).bind fun _ => .pure _
  | adopt tracker value => exact adopt (stays tracker rfl) value
  | data tracker json => exact ofJson (stays tracker rfl) json
  | closure code => exact fun heap kept => same heap _ rfl kept
  | event fresh => exact fun heap kept => same heap _ rfl kept
  | amend id change => exact fun heap kept => same heap _ rfl kept

/-- Whatever is made, the containers that were there stay as they were. -/
theorem perform_allocates (request : Request) : Allocates request.perform :=
  .of_preserves fun heap => .perform (fun tracker _ => grows_staysWithNew heap tracker)
    fun _ _ containers grows => grows.trans (.of_containers_eq containers)

/-! ## Closed heaps -/

/-- Whether a value refers to nothing but what is in the heap. -/
def Known (heap : Heap) (value : Value) : Prop :=
  ∀ id, value = .container id → id.index < heap.containers.size

/-- Whether a value is plain or belongs to a tracker. -/
def Belongs (heap : Heap) (tracker : TrackerId) (value : Value) : Prop :=
  ∀ id, value = .container id → id.index < heap.containers.size ∧ heap.owner id = tracker

/-- Whether every container holds only what belongs to its own tracker. -/
def Closed (heap : Heap) : Prop :=
  ∀ id : ContainerId, id.index < heap.containers.size →
    ∀ value ∈ (heap.contents id).values, heap.Belongs (heap.owner id) value

theorem Belongs.known {heap : Heap} {tracker : TrackerId} {value : Value}
    (belongs : heap.Belongs tracker value) : heap.Known value :=
  fun id same => (belongs id same).1

theorem Known.mono {before after : Heap} {value : Value} (known : before.Known value)
    (grows : before.Grows after) : after.Known value :=
  fun id same => Nat.lt_of_lt_of_le (known id same) grows.size_le

theorem Belongs.mono {before after : Heap} {tracker : TrackerId} {value : Value}
    (belongs : before.Belongs tracker value) (grows : before.Grows after) :
    after.Belongs tracker value := by
  intro id same
  obtain ⟨known, owned⟩ := belongs id same
  refine ⟨Nat.lt_of_lt_of_le known grows.size_le, ?_⟩
  rw [owner, grows.container id known]
  exact owned

theorem belongs_undefined (heap : Heap) (tracker : TrackerId) : heap.Belongs tracker .undefined :=
  fun _ same => nomatch same

/-- A new container with contents of its own tracker keeps the heap closed. -/
theorem Closed.newContainer {heap : Heap} (closed : heap.Closed) {tracker : TrackerId}
    {contents : Contents} (inside : ∀ value ∈ contents.values, heap.Belongs tracker value) :
    (heap.newContainer tracker contents).2.Closed ∧
      (heap.newContainer tracker contents).2.Belongs tracker
        (.container (heap.newContainer tracker contents).1) := by
  have grows := newContainer_grows heap tracker contents
  constructor
  · intro id known value member
    rw [Heap.contents, container_newContainer] at member
    rw [owner, container_newContainer]
    split at member
    next new =>
      rw [if_pos new]
      exact (inside value member).mono grows
    next old =>
      rw [if_neg old]
      have before : id.index < heap.containers.size := by
        simp only [Heap.newContainer, Array.size_push] at known
        omega
      exact (closed id before value member).mono grows
  · rintro id same
    obtain rfl := Value.container.inj same
    refine ⟨by simp [Heap.newContainer], ?_⟩
    have new : (heap.newContainer tracker contents).1.index = heap.containers.size := rfl
    rw [owner, container_newContainer, if_pos new]

/-- A row of computations that keep the heap closed keeps it closed, and each result is as good at
the end as it was when it came. -/
theorem Closed.mapM {α β : Type} {make : α → StateM Heap β} (given : Heap → α → Prop)
    (made : Heap → β → Prop) (allocates : ∀ a, Allocates (make a))
    (givenMono : ∀ {before after a}, before.Grows after → given before a → given after a)
    (madeMono : ∀ {before after b}, before.Grows after → made before b → made after b)
    (makes : ∀ (heap : Heap) a, heap.Closed → given heap a →
      (make a heap).2.Closed ∧ made (make a heap).2 (make a heap).1)
    (list : List α) (heap : Heap) (closed : heap.Closed) (all : ∀ a ∈ list, given heap a) :
    (list.mapM make heap).2.Closed ∧
      ∀ b ∈ (list.mapM make heap).1, made (list.mapM make heap).2 b := by
  induction list generalizing heap with
  | nil => exact ⟨closed, fun b member => nomatch member⟩
  | cons head rest ih =>
      obtain ⟨headClosed, headMade⟩ := makes heap head closed (all head List.mem_cons_self)
      have later : ∀ a ∈ rest, given (make head heap).2 a := fun a member =>
        givenMono (allocates head heap) (all a (List.mem_cons_of_mem head member))
      obtain ⟨restClosed, restMade⟩ := ih (make head heap).2 headClosed later
      rw [List.mapM_cons]
      refine ⟨restClosed, fun b member => ?_⟩
      rcases List.mem_cons.mp member with here | there
      · subst here
        have later : Allocates (rest.mapM make) :=
          .of_preserves fun heap => .mapM (fun a => (allocates a).preserves heap) rest
        exact madeMono (later (make head heap).2) headMade
      · exact restMade b there

/-- Values that are taken over keep the heap closed and come to belong to the tracker. -/
def Takes (tracker : TrackerId) (take : Value → StateM Heap Value) : Prop :=
  ∀ (heap : Heap) (value : Value), heap.Closed → heap.Known value →
    (take value heap).2.Closed ∧ (take value heap).2.Belongs tracker (take value heap).1

theorem Takes.buildArray {tracker : TrackerId} {take : Value → StateM Heap Value}
    (takes : Takes tracker take) (allocates : ∀ value, Allocates (take value))
    {items : List Value} {heap : Heap} (closed : heap.Closed)
    (known : ∀ item ∈ items, heap.Known item) :
    (buildArray tracker take items heap).2.Closed ∧
      (buildArray tracker take items heap).2.Belongs tracker
        (.container (buildArray tracker take items heap).1) := by
  obtain ⟨takenClosed, taken⟩ := Closed.mapM Known
    (fun heap value => heap.Belongs tracker value) allocates
    (fun grows given => given.mono grows) (fun grows made => made.mono grows) takes items heap
    closed known
  refine takenClosed.newContainer fun value member => taken value ?_
  rcases List.mem_append.mp member with item | property
  · exact item
  · exact nomatch property

theorem Takes.buildObject {tracker : TrackerId} {take : Value → StateM Heap Value}
    (takes : Takes tracker take) (allocates : ∀ value, Allocates (take value))
    {entries : List (Key × Value)} {heap : Heap} (closed : heap.Closed)
    (known : ∀ entry ∈ entries, heap.Known entry.2) :
    (buildObject tracker take entries heap).2.Closed ∧
      (buildObject tracker take entries heap).2.Belongs tracker
        (.container (buildObject tracker take entries heap).1) := by
  let takeEntry (entry : Key × Value) : StateM Heap (Key × Value) := do
    return (entry.1, ← take entry.2)
  have takesEntry (heap : Heap) (entry : Key × Value) (closed : heap.Closed)
      (known : heap.Known entry.2) : (takeEntry entry heap).2.Closed ∧
        (takeEntry entry heap).2.Belongs tracker (takeEntry entry heap).1.2 :=
    takes heap entry.2 closed known
  have allocatesEntry (entry : Key × Value) : Allocates (takeEntry entry) :=
    .of_preserves fun heap => ((allocates entry.2).preserves heap).bind fun _ => .pure _
  obtain ⟨takenClosed, taken⟩ := Closed.mapM
    (fun heap (entry : Key × Value) => heap.Known entry.2)
    (fun heap (entry : Key × Value) => heap.Belongs tracker entry.2) allocatesEntry
    (fun grows given => given.mono grows) (fun grows made => made.mono grows)
    takesEntry entries heap closed known
  refine takenClosed.newContainer fun value member => ?_
  obtain ⟨entry, listed, rfl⟩ := List.mem_map.mp member
  exact taken entry (Assoc.mem_ofList listed)

theorem known_of_closed {heap : Heap} (closed : heap.Closed) {id : ContainerId}
    {value : Value} (member : value ∈ (heap.contents id).values) : heap.Known value := by
  by_cases known : id.index < heap.containers.size
  · exact (closed id known value member).known
  · rw [contents, container, Array.getElem?_eq_none (by omega)] at member
    exact nomatch member

theorem takes_adoptWithin (tracker : TrackerId) (depth : Nat) :
    Takes tracker (adoptWithin tracker depth) := by
  intro heap value closed known
  induction depth generalizing heap value with
  | zero =>
      cases value with
      | container id =>
          by_cases own : heap.owner id = tracker
          · rw [adoptWithin_of_owner own]
            exact ⟨closed, fun other same => Value.container.inj same ▸ ⟨known id rfl, own⟩⟩
          · rw [adoptWithin_zero own]
            exact ⟨closed, belongs_undefined heap tracker⟩
      | _ => exact ⟨closed, fun _ same => nomatch same⟩
  | succ depth ih =>
      cases value with
      | container id =>
          by_cases own : heap.owner id = tracker
          · rw [adoptWithin_of_owner own]
            exact ⟨closed, fun other same => Value.container.inj same ▸ ⟨known id rfl, own⟩⟩
          · rw [adoptWithin_succ own]
            have inside : ∀ value ∈ (heap.contents id).values, heap.Known value :=
              fun value member => known_of_closed closed member
            cases holds : heap.contents id with
            | array items named =>
                refine Takes.buildArray (fun heap value => ih heap value)
                  (adoptWithin_allocates tracker depth) closed fun item member => inside item ?_
                rw [holds]
                exact List.mem_append_left _ member
            | object properties =>
                refine Takes.buildObject (fun heap value => ih heap value)
                  (adoptWithin_allocates tracker depth) closed fun entry member => inside entry.2 ?_
                rw [holds]
                exact List.mem_map.mpr ⟨entry, member, rfl⟩
      | _ => exact ⟨closed, fun _ same => nomatch same⟩

/-- An adopted value belongs to the tracker that adopts it. -/
theorem takes_adopt (tracker : TrackerId) : Takes tracker (adopt tracker) :=
  fun heap => takes_adoptWithin tracker heap.containers.size heap

mutual

theorem ofJson_closed (tracker : TrackerId) : ∀ (json : Json) (heap : Heap), heap.Closed →
    (ofJson tracker json heap).2.Closed ∧
      (ofJson tracker json heap).2.Belongs tracker (ofJson tracker json heap).1
  | .null, heap, closed | .bool _, heap, closed | .integer _, heap, closed
  | .float _, heap, closed | .string _, heap, closed => ⟨closed, fun _ same => nomatch same⟩
  | .array items, heap, closed => by
      obtain ⟨itemsClosed, known⟩ := ofJsonItems_closed tracker items heap closed
      exact Takes.buildArray (takes_adopt tracker) (adopt_allocates tracker) itemsClosed known
  | .object members, heap, closed => by
      obtain ⟨membersClosed, known⟩ := ofJsonMembers_closed tracker members heap closed
      exact Takes.buildObject (takes_adopt tracker) (adopt_allocates tracker) membersClosed known

theorem ofJsonItems_closed (tracker : TrackerId) : ∀ (items : List Json) (heap : Heap),
    heap.Closed → (ofJsonItems tracker items heap).2.Closed ∧
      ∀ item ∈ (ofJsonItems tracker items heap).1, (ofJsonItems tracker items heap).2.Known item
  | [], heap, closed => ⟨closed, fun _ member => nomatch member⟩
  | item :: rest, heap, closed => by
      obtain ⟨itemClosed, belongs⟩ := ofJson_closed tracker item heap closed
      obtain ⟨restClosed, known⟩ := ofJsonItems_closed tracker rest _ itemClosed
      have later : Allocates (ofJsonItems tracker rest) :=
        .of_preserves fun heap => .ofJsonItems (grows_staysWithNew heap tracker) rest
      refine ⟨restClosed, fun value member => ?_⟩
      rcases List.mem_cons.mp member with here | there
      · rw [here]
        exact belongs.known.mono (later _)
      · exact known value there

theorem ofJsonMembers_closed (tracker : TrackerId) : ∀ (members : List (String × Json))
    (heap : Heap), heap.Closed → (ofJsonMembers tracker members heap).2.Closed ∧
      ∀ entry ∈ (ofJsonMembers tracker members heap).1,
        (ofJsonMembers tracker members heap).2.Known entry.2
  | [], heap, closed => ⟨closed, fun _ member => nomatch member⟩
  | (name, item) :: rest, heap, closed => by
      obtain ⟨itemClosed, belongs⟩ := ofJson_closed tracker item heap closed
      obtain ⟨restClosed, known⟩ := ofJsonMembers_closed tracker rest _ itemClosed
      have later : Allocates (ofJsonMembers tracker rest) :=
        .of_preserves fun heap => .ofJsonMembers (grows_staysWithNew heap tracker) rest
      refine ⟨restClosed, fun entry member => ?_⟩
      rcases List.mem_cons.mp member with here | there
      · rw [here]
        exact belongs.known.mono (later _)
      · exact known entry there

end

/-- Whether a request hands over nothing but what is in the heap. -/
def Supplied (heap : Heap) : Request → Prop
  | .object _ entries => ∀ entry ∈ entries, heap.Known entry.2
  | .array _ items => ∀ item ∈ items, heap.Known item
  | .adopt _ value => heap.Known value
  | .data _ _ | .closure _ | .event _ | .amend _ _ => True

theorem Closed.of_containers_eq {before after : Heap} (closed : before.Closed)
    (same : after.containers = before.containers) : after.Closed := by
  obtain ⟨containers, closures, events⟩ := after
  obtain rfl : containers = before.containers := same
  exact closed

/-- A request leaves a closed heap closed. -/
theorem Closed.perform {heap : Heap} {request : Request} (closed : heap.Closed)
    (supplied : heap.Supplied request) : (request.perform heap).2.Closed := by
  cases request with
  | object tracker entries =>
      exact (Takes.buildObject (takes_adopt tracker) (adopt_allocates tracker) closed supplied).1
  | array tracker items =>
      exact (Takes.buildArray (takes_adopt tracker) (adopt_allocates tracker) closed supplied).1
  | adopt tracker value => exact (takes_adopt tracker heap value closed supplied).1
  | data tracker json => exact (ofJson_closed tracker json heap closed).1
  | closure code => exact closed.of_containers_eq rfl
  | event fresh => exact closed.of_containers_eq rfl
  | amend id change => exact closed.of_containers_eq rfl

end Heap

end LiveMarkup
