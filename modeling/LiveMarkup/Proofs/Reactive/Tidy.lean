import LiveMarkup.Proofs.Reactive.Territory

/-!
# Tables of properties

Every container has a table: that of an object holds its properties, and that of an array what was
set on it under names.  In all worlds that come about, a key has one place in its table, and the table
of an array holds neither an index nor `length`.
-/

namespace LiveMarkup

namespace Assoc

variable {κ α : Type} [DecidableEq κ]

theorem nodup_ofList (entries : List (κ × α)) : (ofList entries).keys.Nodup := by
  have along (map : Assoc κ α) (distinct : map.keys.Nodup) :
      (entries.foldl (fun map entry => map.insert entry.1 entry.2) map).keys.Nodup := by
    induction entries generalizing map with
    | nil => exact distinct
    | cons entry rest ih => exact ih _ (nodup_insert distinct entry.1 entry.2)
  exact along empty List.nodup_nil

end Assoc

namespace Key

/-- Whether a key is a name, and not that of the length of an array. -/
def Nominal (key : Key) : Prop := ∃ name, name ≠ "length" ∧ key = .name name

theorem isLength_name {name : String} (ordinary : name ≠ "length") :
    (Key.name name).isLength = false := by
  cases isLength : (Key.name name).isLength with
  | false => rfl
  | true => exact absurd (Key.name.inj (Contents.eq_length_of_isLength isLength)) ordinary

theorem nominal_or_length (name : String) : (Key.name name).Nominal ∨ Key.name name = .length := by
  by_cases length : name = "length"
  · exact .inr (congrArg Key.name length)
  · exact .inl ⟨name, length, rfl⟩

end Key

namespace Contents

/-- The properties of an object, or those that were set on an array under names. -/
def table : Contents → Assoc Key Value
  | object properties => properties
  | array _ named => named

/-- What is true of every table. -/
structure Tidy (contents : Contents) : Prop where
  /-- A key has one place. -/
  distinct : contents.table.keys.Nodup
  /-- The table of an array holds neither an index nor `length`. -/
  nominal : contents.isArray = true → ∀ key ∈ contents.table.keys, key.Nominal

variable {before after : Contents} {key : Key} {value : Value}

theorem Made.tidy {contents : Contents} (made : contents.Made) : contents.Tidy := by
  cases made with
  | array items =>
      constructor
      · exact List.nodup_nil
      · exact fun _ key member => absurd member List.not_mem_nil
  | object entries =>
      constructor
      · exact Assoc.nodup_ofList entries
      · exact fun isArray => absurd isArray Bool.false_ne_true

theorem Tidy.store (tidy : before.Tidy) (ordinary : key.isLength = false ∨ before.isArray = false)
    (stored : before.store key value = .ok after) : after.Tidy := by
  cases sets_of_store stored with
  | property properties key =>
      exact ⟨Assoc.nodup_insert tidy.distinct key value, fun isArray => absurd isArray Bool.false_ne_true⟩
  | item items named position => exact ⟨tidy.distinct, tidy.nominal⟩
  | name items named text =>
      refine ⟨Assoc.nodup_insert tidy.distinct _ value, fun isArray other member => ?_⟩
      rcases Assoc.mem_keys_insert member with old | rfl
      · exact tidy.nominal isArray other old
      · refine ⟨text, fun same => ?_, rfl⟩
        subst same
        rcases ordinary with notLength | object
        · cases notLength
        · cases object

theorem Tidy.written (tidy : before.Tidy) (written : Written key value before after) : after.Tidy := by
  cases written with
  | store ordinary stored => exact tidy.store ordinary stored
  | resize length _ isArray =>
      cases before with
      | object properties => exact absurd isArray Bool.false_ne_true
      | array items named => exact ⟨tidy.distinct, tidy.nominal⟩

/-- The last item of an array is not in its table. -/
theorem table_pop {position : Nat} {last : Value} (popped : before.pop? = some (position, last, after)) :
    after.table = before.table := by
  obtain ⟨items, named, rfl, -, -, rfl⟩ := eq_of_pop? popped
  rfl

theorem Tidy.pop {position : Nat} {last : Value} (tidy : before.Tidy)
    (popped : before.pop? = some (position, last, after)) : after.Tidy where
  distinct := table_pop popped ▸ tidy.distinct
  nominal isArray := table_pop popped ▸ tidy.nominal (Store.isArray_pop popped ▸ isArray)

end Contents

namespace Heap

/-- Whether the tables of all containers are tidy. -/
def Tidy (heap : Heap) : Prop := ∀ id, (heap.contents id).Tidy

variable {heap : Heap}

theorem Tidy.staysWithNew (tracker : TrackerId) : StaysWithNew tracker Tidy := by
  intro heap contents made tidy id
  rw [Heap.contents, container_newContainer]
  split
  · exact made.tidy
  · exact tidy id

theorem Tidy.perform (tidy : heap.Tidy) (request : Request) : (request.perform heap).2.Tidy := by
  refine Preserves.perform (fun tracker _ => staysWithNew tracker) ?_ heap tidy
  intro before after same tidy id
  rw [Heap.contents, container, same]
  exact tidy id

theorem Tidy.setContents {contents : Contents} (tidy : heap.Tidy) (id : ContainerId)
    (given : contents.Tidy) : (heap.setContents id contents).Tidy := by
  intro other
  rw [Heap.contents, container_setContents]
  split
  · exact given
  · exact tidy other

end Heap

namespace Store

variable {store : Store}

theorem tidy_put (tidy : store.heap.Tidy) (id : ContainerId) (key : Key) (value : Value) :
    (store.put id key value).2.heap.Tidy := by
  have adopted := tidy.perform (.adopt (store.heap.owner id) value)
  change (Heap.adopt (store.heap.owner id) value store.heap).2.Tidy at adopted
  obtain ⟨taken, heap, adoption, refused | ⟨contents, written, stored⟩⟩ :=
    heap_put_cases store id key value
  · rw [refused]
    rwa [adoption] at adopted
  · rw [stored]
    rw [adoption] at adopted
    exact adopted.setContents id ((adopted id).written written)

theorem tidy_takeLast (tidy : store.heap.Tidy) (id : ContainerId) :
    (store.takeLast id).2.2.heap.Tidy := by
  rcases takeLast_cases store id with nothing | ⟨position, last, rest, popped, taken⟩
  · rw [nothing]
    exact tidy
  · rw [taken]
    exact tidy.setContents id ((tidy id).pop popped)

end Store

variable {σ : Type}

namespace Point

theorem Goes.tidy {point next : Point σ} (goes : point.Goes next)
    (tidy : point.world.store.heap.Tidy) : next.world.store.heap.Tidy := by
  cases goes with
  | look | has | define | report | drain | survey | alter => exact tidy
  | @track _ reads _ world =>
      change (world.store.track reads).heap.Tidy
      rw [Store.heap_track]
      exact tidy
  | make => exact tidy.perform _
  | @refuse _ target key value _ world _ _ refused =>
      have put := Store.tidy_put tidy target key value
      rw [refused] at put
      exact put

theorem Calls.tidy {point callee : Point σ} {resume : Except Fault Value → World σ → Point σ}
    (calls : point.Calls callee resume) (tidy : point.world.store.heap.Tidy) :
    callee.world.store.heap.Tidy := by
  cases calls with
  | @write _ target key value _ world _ _ accepted =>
      have put := Store.tidy_put tidy target key value
      rw [accepted] at put
      exact put
  | @pop _ target _ world => exact Store.tidy_takeLast tidy target
  | run | untracked | begin | attempts | tell => exact tidy

theorem Calls.tidy_resume {point callee : Point σ} {resume : Except Fault Value → World σ → Point σ}
    {between : World σ} (calls : point.Calls callee resume) (tidy : between.store.heap.Tidy)
    (outcome : Except Fault Value) : (resume outcome between).world.store.heap.Tidy := by
  cases calls with
  | attempts =>
      cases outcome with
      | ok result => exact tidy
      | error fault => exact tidy
  | write | pop | run | untracked | begin | tell => exact tidy

/-- Tables stay tidy at all points of a run. -/
theorem Runs.tidy {point : Point σ} {passed : List (Point σ)} {result : Except Fault Value}
    {after : World σ} (runs : point.Runs passed result after) (tidy : point.world.store.heap.Tidy) :
    (∀ inner ∈ passed, inner.world.store.heap.Tidy) ∧ after.store.heap.Tidy :=
  runs.keeps (fun point => point.world.store.heap.Tidy) (fun world => world.store.heap.Tidy)
    (fun ends tidy => ends.world_eq ▸ tidy) (fun goes tidy => goes.tidy tidy)
    (fun calls tidy => calls.tidy tidy) (fun calls _ _ tidy => calls.tidy_resume tidy _) tidy

end Point

namespace World

theorem Attained.tidy {world : World σ} (attained : world.Attained) : world.store.heap.Tidy := by
  induction attained with
  | start some surroundings => exact fun id => (Contents.Made.object []).tidy
  | run attained allowed ih =>
      obtain ⟨passed, runs⟩ := exec_runs_of_kept Point.grounded_kept
        ⟨attained.grounded, (Operation.grounded allowed).toTask⟩
      exact (runs.tidy ih).2

/-- In all worlds that come about, also inside of operations and effects, tables are tidy. -/
theorem Visited.tidy {world : World σ} (visited : world.Visited) : world.store.heap.Tidy := by
  cases visited with
  | between attained => exact attained.tidy
  | inside attained allowed runs member => exact (runs.tidy attained.tidy).1 _ member

end World

end LiveMarkup
