import LiveMarkup.Proofs.Reactive.Confined

/-!
# Data from JSON

JSON data becomes new containers that hold nothing but one another.  So a state that was calm stays
calm when data is made in it, and whatever the data consists of lies inside.
-/

namespace LiveMarkup

/-- What is left when something was made in a calm state. -/
structure Reach.Supplies (reach : Reach) (before after : Heap) (values : List Value) : Prop where
  /-- The state is calm. -/
  calm : reach.Calm after
  /-- Containers were only added. -/
  grows : before.Grows after
  /-- No function was made. -/
  closures : after.closures = before.closures
  /-- No event was made. -/
  events : after.events = before.events
  /-- What was made lies inside. -/
  holds : ∀ value ∈ values, reach.Holds after value

namespace Reach

variable {reach : Reach} {before between after : Heap} {values others : List Value}

theorem Supplies.none (calm : reach.Calm before) : reach.Supplies before before [] :=
  ⟨calm, .refl _, rfl, rfl, fun _ member => absurd member List.not_mem_nil⟩

theorem Supplies.plain (calm : reach.Calm before) {value : Value}
    (plain : ∀ id, value ≠ .container id) : reach.Supplies before before [value] where
  calm := calm
  grows := .refl _
  closures := rfl
  events := rfl
  holds _ member id same := absurd ((List.mem_singleton.mp member).symm.trans same) (plain id)

/-- Things are made one after another. -/
theorem Supplies.append (first : reach.Supplies before between values)
    (second : reach.Supplies between after others) :
    reach.Supplies before after (values ++ others) where
  calm := second.calm
  grows := first.grows.trans second.grows
  closures := second.closures.trans first.closures
  events := second.events.trans first.events
  holds value member := by
    rcases List.mem_append.mp member with early | late
    · exact Holds.mono (first.holds value early) second.grows
    · exact second.holds value late

/-- Values that were made are put into a container. -/
theorem Supplies.container (supplies : reach.Supplies before between values) {contents : Contents}
    (within : ∀ value ∈ contents.values, value ∈ values) :
    reach.Supplies before (between.newContainer reach.tracker contents).2
      [.container (between.newContainer reach.tracker contents).1] := by
  obtain ⟨calm, inside⟩ :=
    supplies.calm.newContainer fun value member => supplies.holds value (within value member)
  refine ⟨calm, supplies.grows.trans (Heap.newContainer_grows between reach.tracker contents),
    supplies.closures, supplies.events, fun value member => ?_⟩
  rw [List.mem_singleton.mp member]
  exact Value.in_container.mpr inside

end Reach

namespace Heap

variable {reach : Reach}

theorem contents_newContainer (heap : Heap) (owner : TrackerId) (contents : Contents) :
    (heap.newContainer owner contents).2.contents (heap.newContainer owner contents).1 =
      contents := by
  rw [Heap.contents, container_newContainer]
  exact congrArg Container.contents (if_pos rfl)

mutual

/-- JSON data lies inside. -/
theorem ofJson_supplies : ∀ (json : Json) (heap : Heap), reach.Calm heap →
    reach.Supplies heap (ofJson reach.tracker json heap).2 [(ofJson reach.tracker json heap).1]
  | .null, _, calm | .bool _, _, calm | .integer _, _, calm | .float _, _, calm
  | .string _, _, calm => .plain calm fun _ same => nomatch same
  | .array items, heap, calm => by
      have supplies := ofJsonItems_supplies items heap calm
      have own := TaskM.Confined.foreignTo_of_holds supplies.calm supplies.holds
      have made : ofJson reach.tracker (.array items) heap =
          ((.container (newArray reach.tracker (ofJsonItems reach.tracker items heap).1
              (ofJsonItems reach.tracker items heap).2).1),
            (newArray reach.tracker (ofJsonItems reach.tracker items heap).1
              (ofJsonItems reach.tracker items heap).2).2) := rfl
      rw [made, newArray_of_owner own]
      refine supplies.container fun value member => ?_
      rcases List.mem_append.mp member with item | property
      · exact item
      · exact nomatch property
  | .object members, heap, calm => by
      have supplies := ofJsonMembers_supplies members heap calm
      have own := TaskM.Confined.foreignTo_of_holds supplies.calm supplies.holds
      have made : ofJson reach.tracker (.object members) heap =
          ((.container (newObject reach.tracker (ofJsonMembers reach.tracker members heap).1
              (ofJsonMembers reach.tracker members heap).2).1),
            (newObject reach.tracker (ofJsonMembers reach.tracker members heap).1
              (ofJsonMembers reach.tracker members heap).2).2) := rfl
      rw [made, newObject_of_owner own]
      refine supplies.container fun value member => ?_
      obtain ⟨entry, listed, rfl⟩ := List.mem_map.mp member
      exact List.mem_map.mpr ⟨entry, Assoc.mem_ofList listed, rfl⟩

theorem ofJsonItems_supplies : ∀ (items : List Json) (heap : Heap), reach.Calm heap →
    reach.Supplies heap (ofJsonItems reach.tracker items heap).2 (ofJsonItems reach.tracker items heap).1
  | [], _, calm => .none calm
  | item :: rest, heap, calm => by
      have first := ofJson_supplies item heap calm
      exact first.append (ofJsonItems_supplies rest _ first.calm)

theorem ofJsonMembers_supplies : ∀ (members : List (String × Json)) (heap : Heap), reach.Calm heap →
    reach.Supplies heap (ofJsonMembers reach.tracker members heap).2
      ((ofJsonMembers reach.tracker members heap).1.map Prod.snd)
  | [], _, calm => .none calm
  | (_, item) :: rest, heap, calm => by
      have first := ofJson_supplies item heap calm
      exact first.append (ofJsonMembers_supplies rest _ first.calm)

end

/-- An object of JSON data is an object. -/
theorem ofJson_object (members : List (String × Json)) {heap : Heap} (calm : reach.Calm heap) :
    ∃ id, (ofJson reach.tracker (.object members) heap).1 = .container id ∧
      (ofJson reach.tracker (.object members) heap).2.isArray id = false := by
  have supplies := ofJsonMembers_supplies members heap calm
  have own := TaskM.Confined.foreignTo_of_holds supplies.calm supplies.holds
  let made := newObject reach.tracker (ofJsonMembers reach.tracker members heap).1
    (ofJsonMembers reach.tracker members heap).2
  refine ⟨made.1, rfl, ?_⟩
  change made.2.isArray made.1 = _
  unfold made
  rw [newObject_of_owner own, isArray, contents_newContainer]
  rfl

end Heap

end LiveMarkup
