import LiveMarkup.Proofs.Heap.Change
import LiveMarkup.Proofs.Heap.Reads

/-!
# Renamed heaps

Two heaps may hold the same things under other identities.  A renaming takes every container,
function and event of the first to its counterpart in the second.  The contents need not correspond
everywhere: what a computation reads is enough, and these definitions say of which properties it is
required.
-/

namespace LiveMarkup

/-- Moves the positions from the end of a list to the end of a longer one. -/
def shiftIndex (before after index : Nat) : Nat :=
  if index < before then index else index + (after - before)

theorem shiftIndex_of_lt {before after index : Nat} (known : index < before) :
    shiftIndex before after index = index :=
  if_pos known

theorem shiftIndex_add {before after : Nat} (longer : before ≤ after) (later : Nat) :
    shiftIndex before after (before + later) = after + later := by
  rw [shiftIndex, if_neg (by omega)]
  omega

theorem shiftIndex_injective {before after first second : Nat}
    (same : shiftIndex before after first = shiftIndex before after second) : first = second := by
  unfold shiftIndex at same
  split at same <;> split at same <;> omega

/-- A change of identities that keeps different things apart. -/
structure Renaming where
  /-- From here on containers are new and correspond in full. -/
  base : Nat
  /-- The counterpart of a container. -/
  container : ContainerId → ContainerId
  /-- The counterpart of a function. -/
  function : FunctionId → FunctionId
  /-- The counterpart of an event. -/
  event : EventId → EventId
  container_injective : ∀ {a b}, container a = container b → a = b
  function_injective : ∀ {a b}, function a = function b → a = b
  event_injective : ∀ {a b}, event a = event b → a = b

namespace Renaming

variable (ρ : Renaming)

/-- The counterpart of a value. -/
def value : Value → Value
  | .container id => .container (ρ.container id)
  | .function id => .function (ρ.function id)
  | .event id => .event (ρ.event id)
  | .undefined => .undefined
  | .null => .null
  | .bool value => .bool value
  | .number value => .number value
  | .text value => .text value

/-- The counterpart of contents. -/
def contents : Contents → Contents
  | .object properties => .object (properties.mapValues ρ.value)
  | .array items named => .array (items.map ρ.value) (named.mapValues ρ.value)

/-- The counterpart of a scope. -/
def scope (scope : Scope) : Scope := ⟨scope.tracker, scope.data.map ρ.container⟩

/-- The counterpart of bindings. -/
def bindings (bindings : Bindings) : Bindings := bindings.mapValues ρ.value

/-- The counterpart of a function. -/
def closure (closure : Closure) : Closure :=
  ⟨closure.params, closure.body, ρ.scope closure.scope, ρ.bindings closure.bindings⟩

@[simp] theorem isNullish_value (value : Value) : (ρ.value value).isNullish = value.isNullish := by
  cases value <;> rfl

@[simp] theorem isTruthy_value (value : Value) : (ρ.value value).isTruthy = value.isTruthy := by
  cases value <;> rfl

theorem beq_container (first second : ContainerId) :
    (ρ.container first == ρ.container second) = (first == second) := by
  rw [Bool.eq_iff_iff, beq_iff_eq, beq_iff_eq]
  exact ⟨ρ.container_injective, congrArg ρ.container⟩

theorem beq_function (first second : FunctionId) :
    (ρ.function first == ρ.function second) = (first == second) := by
  rw [Bool.eq_iff_iff, beq_iff_eq, beq_iff_eq]
  exact ⟨ρ.function_injective, congrArg ρ.function⟩

theorem beq_event (first second : EventId) :
    (ρ.event first == ρ.event second) = (first == second) := by
  rw [Bool.eq_iff_iff, beq_iff_eq, beq_iff_eq]
  exact ⟨ρ.event_injective, congrArg ρ.event⟩

theorem index_container_eq_iff (first second : ContainerId) :
    (ρ.container first).index = (ρ.container second).index ↔ first.index = second.index := by
  constructor
  · intro same
    exact congrArg ContainerId.index (ρ.container_injective (congrArg ContainerId.mk same))
  · intro same
    exact congrArg (fun index => (ρ.container ⟨index⟩).index) same

theorem index_function_eq_iff (first second : FunctionId) :
    (ρ.function first).index = (ρ.function second).index ↔ first.index = second.index := by
  constructor
  · intro same
    exact congrArg FunctionId.index (ρ.function_injective (congrArg FunctionId.mk same))
  · intro same
    exact congrArg (fun index => (ρ.function ⟨index⟩).index) same

theorem index_event_eq_iff (first second : EventId) :
    (ρ.event first).index = (ρ.event second).index ↔ first.index = second.index := by
  constructor
  · intro same
    exact congrArg EventId.index (ρ.event_injective (congrArg EventId.mk same))
  · intro same
    exact congrArg (fun index => (ρ.event ⟨index⟩).index) same

/-- Values are as equal as their counterparts. -/
theorem strictEquals_value (first second : Value) :
    (ρ.value first).strictEquals (ρ.value second) = first.strictEquals second := by
  cases first with
  | container id =>
      cases second with
      | container other => exact ρ.beq_container id other
      | _ => rfl
  | function id =>
      cases second with
      | function other => exact ρ.beq_function id other
      | _ => rfl
  | event id =>
      cases second with
      | event other => exact ρ.beq_event id other
      | _ => rfl
  | _ => cases second <;> rfl

theorem sameValue_value (first second : Value) :
    (ρ.value first).sameValue (ρ.value second) = first.sameValue second := by
  cases first with
  | number x => cases second <;> rfl
  | _ => exact ρ.strictEquals_value _ second

/-- Bindings of values that correspond to themselves correspond to themselves. -/
theorem bindings_of_fixed {bindings : Bindings}
    (fixed : ∀ entry ∈ bindings.entries, ρ.value entry.2 = entry.2) :
    ρ.bindings bindings = bindings := by
  obtain ⟨entries⟩ := bindings
  refine congrArg Assoc.mk ?_
  calc entries.map (fun entry => (entry.1, ρ.value entry.2))
      = entries.map fun entry => entry :=
        List.map_congr_left fun entry member => by rw [fixed entry member]
    _ = entries := List.map_id' entries

theorem withoutBool_value (value : Value) :
    Heap.withoutBool (ρ.value value) = ρ.value (Heap.withoutBool value) := by
  cases value <;> rfl

theorem plainEquals_value (first second : Value) :
    Heap.plainEquals (ρ.value first) (ρ.value second) = Heap.plainEquals first second := by
  cases first with
  | number x => cases second <;> rfl
  | text text => cases second <;> rfl
  | _ => exact ρ.strictEquals_value _ second

end Renaming

namespace Assoc

variable {κ α β : Type} [DecidableEq κ]

theorem get?_mapValues (f : α → β) (map : Assoc κ α) (key : κ) :
    (map.mapValues f).get? key = (map.get? key).map f := by
  obtain ⟨entries⟩ := map
  simp only [get?, mapValues]
  induction entries with
  | nil => rfl
  | cons entry rest ih =>
      simp only [List.map_cons, lookup]
      split
      · rfl
      · exact ih

theorem contains_mapValues (f : α → β) (map : Assoc κ α) (key : κ) :
    (map.mapValues f).contains key = map.contains key := by
  rw [contains, get?_mapValues, Option.isSome_map, contains]

theorem mapValues_insert (f : α → β) (map : Assoc κ α) (key : κ) (value : α) :
    (map.insert key value).mapValues f = (map.mapValues f).insert key (f value) := by
  obtain ⟨entries⟩ := map
  simp only [insert, mapValues, mk.injEq]
  induction entries with
  | nil => rfl
  | cons entry rest ih =>
      simp only [put, List.map_cons]
      split
      · rfl
      · rw [List.map_cons, ih]

theorem mapValues_ofList (f : α → β) (entries : List (κ × α)) :
    (ofList entries).mapValues f = ofList (entries.map fun entry => (entry.1, f entry.2)) := by
  have insertAll (map : Assoc κ α) :
      (entries.foldl (fun map entry => map.insert entry.1 entry.2) map).mapValues f =
        (entries.map fun entry => (entry.1, f entry.2)).foldl
          (fun map entry => map.insert entry.1 entry.2) (map.mapValues f) := by
    induction entries generalizing map with
    | nil => rfl
    | cons entry rest ih =>
        rw [List.foldl_cons, ih, mapValues_insert, List.map_cons, List.foldl_cons]
  exact insertAll empty

end Assoc

namespace Contents

/-- Whether a key reads in the second contents as the counterpart of what it reads in the first: its
value, and as the length of an array the number of items. -/
structure Mirrored (ρ : Renaming) (first second : Contents) (key : Key) : Prop where
  /-- The values correspond. -/
  value : second.lookup key = ρ.value (first.lookup key)
  /-- An array has the same number of items. -/
  count : first.isArray = true → key = .length → second.count = first.count

theorem isArray_rename (ρ : Renaming) (contents : Contents) :
    (ρ.contents contents).isArray = contents.isArray := by
  cases contents <;> rfl

theorem count_rename (ρ : Renaming) (contents : Contents) :
    (ρ.contents contents).count = contents.count := by
  cases contents with
  | object properties => exact List.length_map _
  | array items named => exact Array.size_map

theorem lookup_rename (ρ : Renaming) (contents : Contents) (key : Key) :
    (ρ.contents contents).lookup key = ρ.value (contents.lookup key) := by
  have found (map : Assoc Key Value) (key : Key) :
      ((map.mapValues ρ.value).get? key).getD .undefined =
        ρ.value ((map.get? key).getD .undefined) := by
    rw [Assoc.get?_mapValues]
    cases map.get? key <;> rfl
  cases contents with
  | object properties => exact found properties key
  | array items named =>
      cases key with
      | index position =>
          simp only [Renaming.contents, lookup, Array.getElem?_map]
          cases items[position]? <;> rfl
      | name text =>
          simp only [Renaming.contents, lookup, Array.size_map]
          split
          · rfl
          · exact found named (.name text)

theorem contains_rename (ρ : Renaming) (contents : Contents) (key : Key) :
    (ρ.contents contents).contains key = contents.contains key := by
  cases contents with
  | object properties => exact Assoc.contains_mapValues ρ.value properties key
  | array items named =>
      cases key with
      | index position => simp [Renaming.contents, contains]
      | name text => simp [Renaming.contents, contains, Assoc.contains_mapValues]

/-- Contents that are renamed as a whole correspond under every key. -/
theorem mirrored_rename (ρ : Renaming) (contents : Contents) (key : Key) :
    contents.Mirrored ρ (ρ.contents contents) key :=
  ⟨lookup_rename ρ contents key, fun _ _ => count_rename ρ contents⟩

end Contents

namespace Heap

/-- Whether the second heap is the counterpart of the first as far as the given reads and tests of
presence go.  Kinds, trackers, functions and events correspond everywhere, and so will whatever is
made next. -/
structure Mirrors (ρ : Renaming) (reads probes : Access → Prop) (first second : Heap) : Prop where
  /-- Arrays correspond to arrays and objects to objects. -/
  kind : ∀ id, second.isArray (ρ.container id) = first.isArray id
  /-- Counterparts belong to the same tracker. -/
  owner : ∀ id, second.owner (ρ.container id) = first.owner id
  /-- What may be read corresponds. -/
  read : ∀ access, reads access → (first.contents access.container).Mirrored ρ
    (second.contents (ρ.container access.container)) access.key
  /-- What may be tested for is there or not in both. -/
  probed : ∀ access, probes access →
    second.contains (ρ.container access.container) access.key =
      first.contains access.container access.key
  /-- New containers hold counterparts. -/
  made : ∀ id, ρ.base ≤ id.index →
    second.contents (ρ.container id) = ρ.contents (first.contents id)
  /-- The next containers will correspond. -/
  nextContainer : ∀ later, ρ.container ⟨first.containers.size + later⟩ =
    ⟨second.containers.size + later⟩
  /-- Functions correspond. -/
  closure : ∀ id, second.closures[(ρ.function id).index]? =
    first.closures[id.index]?.map ρ.closure
  /-- The next functions will correspond. -/
  nextFunction : ∀ later, ρ.function ⟨first.closures.size + later⟩ =
    ⟨second.closures.size + later⟩
  /-- Events are the same. -/
  event : ∀ id, second.event (ρ.event id) = first.event id
  /-- Events that exist correspond to events that exist. -/
  eventKnown : ∀ id, (ρ.event id).index < second.events.size ↔ id.index < first.events.size

end Heap

end LiveMarkup
