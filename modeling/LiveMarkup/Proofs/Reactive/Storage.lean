import LiveMarkup.Proofs.Heap.Shelf
import LiveMarkup.Proofs.Reactive.Storing

/-!
# Arrays store what a padded list stores

Whatever is written to an array, taken or refused, what can be read of it afterwards is what can be
read of a shelf after the same change.  This holds for one write and, by induction, for any number
of them, as long as no effect runs in between.
-/

namespace LiveMarkup

/-! ## One write -/

namespace Heap

/-- The number that a value names. -/
def number (heap : Heap) (value : Value) : Float := ((heap.toNumber value).run #[]).1

/-- The text that is shown for a value. -/
def shown (heap : Heap) (value : Value) : String := ((heap.display value).run #[]).1

/-- What a write under a key asks an array for.  The value is taken over first. -/
def asked (heap : Heap) (list : ContainerId) (key : Key) (value : Value) : Shelf.Change :=
  let adopted := adopt (heap.owner list) value heap
  match key with
  | .index position => .put position adopted.1
  | .name name =>
      if name = "length" then
        .resize (adopted.2.number adopted.1) (adopted.2.shown adopted.1)
      else .putNamed name adopted.1

end Heap

namespace Store

variable {store : Store} {list : ContainerId} {items : Array Value} {table : Assoc Key Value}
  {shelf : Shelf}

/-- A length is what a number names, and a refusal shows the value. -/
theorem lengthOf_cases (store : Store) (value : Value) :
    (∃ length, Contents.validLength? (store.heap.number value) = some length ∧
      (store.lengthOf value).1 = .ok length) ∨
    (Contents.validLength? (store.heap.number value) = none ∧
      (store.lengthOf value).1 = .error (.invalidLength (store.heap.shown value))) := by
  have number : (store.watch fun heap => heap.toNumber value).1 = store.heap.number value := rfl
  cases valid : Contents.validLength? (store.heap.number value) with
  | some length =>
      refine .inl ⟨length, rfl, ?_⟩
      simp only [lengthOf, number, valid]
  | none =>
      have heap : (store.watch fun heap => heap.toNumber value).2.heap = store.heap := heap_track _ _
      have shown (other : Store) : (other.watch fun heap => heap.display value).1 =
          other.heap.shown value := rfl
      refine .inr ⟨rfl, ?_⟩
      simp only [lengthOf, number, valid, shown, heap]

/-- Whether contents that are to be stored, or a refusal, are what a shelf says of a change. -/
def Matches (shelf : Shelf) (change : Shelf.Change) (result : Except ReactiveFault Contents) : Prop :=
  (∃ after items table, shelf.after change = .ok after ∧ result = .ok (.array items table) ∧
    after.Stored items table) ∨
  ∃ fault, shelf.after change = .error fault ∧ result = .error fault

section Asked

variable (contents : store.heap.contents list = .array items table)
  (stored : shelf.Stored items table)

include contents stored

theorem matches_index (position : Nat) (value : Value) :
    Matches shelf (.put position value) (store.contentsAfter list (.index position) value).1 := by
  by_cases room : position < maxArrayLength
  · refine .inl ⟨shelf.put position value, Contents.storeItem items position value, table,
      if_pos room, ?_, stored.put position value⟩
    simp only [contentsAfter, contents, Contents.isLength_index, Contents.store, if_pos room]
    rfl
  · refine .inr ⟨_, if_neg room, ?_⟩
    simp only [contentsAfter, contents, Contents.isLength_index, Contents.store, if_neg room]
    rfl

theorem matches_length (value : Value) :
    Matches shelf (.resize (store.heap.number value) (store.heap.shown value))
      (store.contentsAfter list (.name "length") value).1 := by
  have after : (store.contentsAfter list (.name "length") value).1 =
      (store.lengthOf value).1.map (Contents.array items table).setLength := by
    simp only [contentsAfter, contents]
    rfl
  rw [after]
  rcases lengthOf_cases store value with ⟨length, valid, found⟩ | ⟨invalid, found⟩
  · refine .inl ⟨shelf.resize length, Contents.resize items length, table, ?_, ?_,
      stored.resize length⟩
    · simp only [Shelf.after, valid]
    · rw [found]
      rfl
  · refine .inr ⟨.invalidLength (store.heap.shown value), ?_, ?_⟩
    · simp only [Shelf.after, invalid]
    · rw [found]
      rfl

theorem matches_name {name : String} (other : name ≠ "length") (value : Value) :
    Matches shelf (.putNamed name value) (store.contentsAfter list (.name name) value).1 := by
  refine .inl ⟨shelf.putNamed name value, items, table.insert (.name name) value, rfl, ?_,
    stored.putNamed other value⟩
  simp only [contentsAfter, contents, Key.isLength_name other, Contents.store]
  rfl

/-- The contents that a write leads to are stored by the shelf after the change, and what the array
refuses is refused by the shelf. -/
theorem contentsAfter_asked (key : Key) (value : Value) :
    let adopted := store.perform (.adopt (store.heap.owner list) value)
    Matches shelf (store.heap.asked list key value)
      (adopted.2.contentsAfter list key adopted.1).1 := by
  intro adopted
  have stays : adopted.2.heap.contents list = .array items table := contents_perform contents
  cases key with
  | index position => exact matches_index stays stored position adopted.1
  | name name =>
      by_cases length : name = "length"
      · subst length
        exact matches_length stays stored adopted.1
      · have asked : store.heap.asked list (.name name) value = .putNamed name adopted.1 :=
          if_neg length
        rw [asked]
        exact matches_name stays stored length adopted.1

end Asked

/-- A write to an array is answered as the shelf answers the change, and leads to an array that
reads as the shelf after it. -/
theorem put_asked (shows : (store.heap.contents list).Shows shelf) (key : Key) (value : Value) :
    (store.put list key value).1.map (fun _ => ()) =
        (shelf.after (store.heap.asked list key value)).map (fun _ => ()) ∧
      ((store.put list key value).2.heap.contents list).Shows
        (shelf.next (store.heap.asked list key value)) := by
  obtain ⟨items, table, contents, stored⟩ := shows.stored
  let adopted := store.perform (.adopt (store.heap.owner list) value)
  have stays : adopted.2.heap.contents list = .array items table := contents_perform contents
  have known : list.index < adopted.2.heap.containers.size := known_of_perform contents
  obtain ⟨reads, tracked, -⟩ := contentsAfter_spec adopted.2 list key adopted.1
  have performed : store.perform (.adopt (store.heap.owner list) value) = (adopted.1, adopted.2) := rfl
  rcases contentsAfter_asked contents stored key value with
    ⟨after, newItems, newTable, taken, found, storedNow⟩ | ⟨fault, refused, found⟩
  · have result : adopted.2.contentsAfter list key adopted.1 =
        (.ok (.array newItems newTable), adopted.2.track reads) := Prod.ext found tracked
    simp only [put, performed, result, taken, Shelf.next]
    refine ⟨rfl, ?_⟩
    have heap : (adopted.2.track reads).heap = adopted.2.heap := heap_track _ _
    rw [setContents, heap, Heap.contents_setContents known]
    exact .of_stored storedNow
  · have result : adopted.2.contentsAfter list key adopted.1 =
        (.error fault, adopted.2.track reads) := Prod.ext found tracked
    simp only [put, performed, result, refused, Shelf.next]
    refine ⟨rfl, ?_⟩
    rw [heap_track, stays]
    exact .of_stored stored

/-- The last item of an array is that of the shelf. -/
theorem takeLast_shows (shows : (store.heap.contents list).Shows shelf) :
    (store.takeLast list).1 = shelf.last ∧
      ((store.takeLast list).2.2.heap.contents list).Shows shelf.dropLast := by
  obtain ⟨items, table, contents, stored⟩ := shows.stored
  have known := Heap.known_of_array contents
  have last := stored.last
  have dropped : (Contents.array items.pop table).Shows shelf.dropLast := .of_stored stored.dropLast
  cases found : items.back? with
  | some item =>
      rw [found] at last
      simp only [takeLast, contents, Contents.pop?, found]
      rw [setContents, Heap.contents_setContents known]
      exact ⟨last, dropped⟩
  | none =>
      rw [found] at last
      obtain rfl := Array.back?_eq_none_iff.mp found
      simp only [takeLast, contents, Contents.pop?, found]
      exact ⟨last, dropped⟩

end Store

/-! ## Writes one after another -/

namespace Write

/-- What a write asks an array for.  Appending is a write behind the last item. -/
def change (heap : Heap) (list : ContainerId) : Write → Shelf.Change
  | set key value | trySet key value => heap.asked list key value
  | push value => heap.asked list (.index (heap.contents list).count) value
  | pop => .dropLast

/-- How a write is answered: a refusal is passed on or not, appending tells the next length, and
removing the last item gives it. -/
def answer (shelf : Shelf) (change : Shelf.Change) : Write → Except Fault Value
  | set _ _ => .ok .undefined
  | trySet _ _ =>
      match shelf.after change with
      | .ok _ => .ok .undefined
      | .error fault => .error (.reactive fault)
  | push _ => .ok (.ofNat (shelf.length + 1))
  | pop => .ok shelf.last

end Write

namespace World

variable {σ : Type} {bound : Nat} {world : World σ} {list : ContainerId} {shelf : Shelf}

/-- A write to an array whose readers are all running ends as the shelf says. -/
theorem perform_shows (bound : Nat) (write : Write) (engaged : world.store.Engaged (· = list))
    (shows : (world.store.heap.contents list).Shows shelf) :
    let change := write.change world.store.heap list
    ∃ after, (write.perform list).Ends (runEffect bound) world (write.answer shelf change) after ∧
      world.ChangesOnly list after ∧ after.store.Engaged (· = list) ∧
      (after.store.heap.contents list).Shows (shelf.next change) := by
  cases write with
  | set key value =>
      obtain ⟨-, showsNow⟩ := Store.put_asked shows key value
      obtain ⟨after, sets, rested⟩ := set_ends bound engaged key value
      refine ⟨after, sets.bind (.pure _ after), rested.changes, rested.engaged, ?_⟩
      rw [rested.heap]
      exact showsNow
  | trySet key value =>
      obtain ⟨result, showsNow⟩ := Store.put_asked shows key value
      obtain ⟨after, tries, rested⟩ := tryWrite_ends bound engaged key value
      refine ⟨after, tries.bind ?_, rested.changes, rested.engaged, ?_⟩
      · rw [result]
        simp only [Write.change, Write.answer]
        cases shelf.after (world.store.heap.asked list key value) with
        | ok after => exact .pure _ _
        | error fault => exact .ofExcept (.error _) _
      · rw [rested.heap]
        exact showsNow
  | push value =>
      obtain ⟨items, table, contents, stored⟩ := shows.stored
      obtain ⟨-, showsNow⟩ := Store.put_asked shows (.index items.size) value
      obtain ⟨after, pushes, rested⟩ := push_ends bound value contents engaged
      have count : (world.store.heap.contents list).count = items.size := congrArg Contents.count contents
      refine ⟨after, ?_, rested.changes, rested.engaged, ?_⟩
      · rw [Write.answer, ← stored.size]
        exact pushes.bind (.pure _ after)
      · rw [rested.heap, Write.change, count]
        exact showsNow
  | pop =>
      obtain ⟨last, showsNow⟩ := Store.takeLast_shows shows
      obtain ⟨after, pops, rested⟩ := pop_ends bound engaged
      refine ⟨after, ?_, rested.changes, rested.engaged, ?_⟩
      · rw [Write.answer, ← last]
        exact pops
      · rw [rested.heap]
        exact showsNow

/-- Whether writes to an array, one after another, lead from one world to another as the changes
that they ask for lead from one shelf to another.  At all times the array reads as the shelf. -/
inductive Alongside (runner : Runner σ) (list : ContainerId) :
    World σ → Shelf → List Write → World σ → Shelf → Prop
  /-- Nothing is written. -/
  | nil {world : World σ} {shelf : Shelf}
      (shows : (world.store.heap.contents list).Shows shelf) :
      Alongside runner list world shelf [] world shelf
  /-- One more write is made first. -/
  | cons {world between after : World σ} {shelf final : Shelf} {write : Write} {writes : List Write}
      (shows : (world.store.heap.contents list).Shows shelf)
      (ends : (write.perform list).Ends runner world
        (write.answer shelf (write.change world.store.heap list)) between)
      (rest : Alongside runner list between (shelf.next (write.change world.store.heap list)) writes
        after final) : Alongside runner list world shelf (write :: writes) after final

/-- The list never grows beyond the greatest length. -/
theorem Alongside.length_le {runner : Runner σ} {after : World σ} {final : Shelf} {writes : List Write}
    (alongside : Alongside runner list world shelf writes after final) :
    final.length ≤ max shelf.length maxArrayLength := by
  induction alongside with
  | nil shows => exact Nat.le_max_left _ _
  | cons shows ends rest ih =>
      exact Nat.le_trans ih (Nat.max_le.mpr ⟨Shelf.length_next_le _ _, Nat.le_max_right _ _⟩)

theorem alongside_of_shows (bound : Nat) (writes : List Write)
    (engaged : world.store.Engaged (· = list))
    (shows : (world.store.heap.contents list).Shows shelf) :
    ∃ after final, Alongside (runEffect bound) list world shelf writes after final ∧
      world.ChangesOnly list after := by
  induction writes generalizing world shelf with
  | nil => exact ⟨world, shelf, .nil shows, .refl world⟩
  | cons write rest ih =>
      obtain ⟨between, ends, changes, engagedNow, showsNow⟩ := perform_shows bound write engaged shows
      obtain ⟨after, final, alongside, changesRest⟩ := ih engagedNow showsNow
      exact ⟨after, final, .cons shows ends alongside, changes.trans changesRest⟩

/-- Every array of a world that comes about reads as a shelf, and as long as all its readers are
running, any writes to it, taken or refused, do to the array what the changes that they ask for do
to the shelf.  They do nothing else, and the length never exceeds the greater one of the length at
the start and the greatest length. -/
theorem array_follows_shelf (bound : Nat) (visited : world.Visited)
    (isArray : world.store.heap.isArray list = true) (engaged : world.store.Engaged (· = list)) :
    ∃ shelf, ∀ writes, ∃ after final, Alongside (runEffect bound) list world shelf writes after final ∧
      world.ChangesOnly list after ∧ final.length ≤ max shelf.length maxArrayLength := by
  obtain ⟨shelf, shows⟩ := (visited.tidy list).shows isArray
  refine ⟨shelf, fun writes => ?_⟩
  obtain ⟨after, final, alongside, changes⟩ := alongside_of_shows bound writes engaged shows
  exact ⟨after, final, alongside, changes, alongside.length_le⟩

/-- An array is written behind its end, cut off and emptied. -/
theorem lent_follows_shelf :
    ∃ shelf after final,
      Alongside (runEffect lent.store.room) ⟨0⟩ lent shelf
        [.set (.index 2) .null, .trySet .length (.number 1), .pop, .pop] after final ∧
      final.length ≤ max shelf.length maxArrayLength := by
  have engaged : lent.store.Engaged (· = ⟨0⟩) := .of_new [.default, .default] rfl
  obtain ⟨shelf, follows⟩ := array_follows_shelf lent.store.room lent_visited rfl engaged
  obtain ⟨after, final, steps, -, bounded⟩ := follows _
  exact ⟨shelf, after, final, steps, bounded⟩

end World

end LiveMarkup
