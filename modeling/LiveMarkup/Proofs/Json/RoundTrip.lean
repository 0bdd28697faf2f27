import Mathlib.Data.List.Forall2
import LiveMarkup.Proofs.Key
import LiveMarkup.Proofs.Reactive.Supply

/-!
# JSON data comes back

JSON data becomes containers from the inside out, each of which is written into the new containers
before it only.  Reading them back gives the data again: names become keys and keys become the same
names, so no member is lost, renamed or merged with another one, and items keep their order.
-/

namespace LiveMarkup

namespace Json

mutual

/-- Whether something holds of JSON data and of all data in it. -/
def Throughout (holds : Json → Prop) : Json → Prop
  | array items => holds (array items) ∧ ThroughoutItems holds items
  | object members => holds (object members) ∧ ThroughoutMembers holds members
  | other => holds other

/-- Whether something holds of all data in some items. -/
def ThroughoutItems (holds : Json → Prop) : List Json → Prop
  | [] => True
  | item :: rest => item.Throughout holds ∧ ThroughoutItems holds rest

/-- Whether something holds of all data in some members. -/
def ThroughoutMembers (holds : Json → Prop) : List (String × Json) → Prop
  | [] => True
  | (_, item) :: rest => item.Throughout holds ∧ ThroughoutMembers holds rest

end

/-- Whether the members of an object, if it is one, are listed in ascending order of their names,
each name once. -/
def Ascending : Json → Prop
  | object members => members.Pairwise fun first second => first.1 < second.1
  | _ => True

/-- Whether a number, if it is one, is the same after it has been a double. -/
def SurvivesFloat : Json → Prop
  | integer value => Heap.numberToJson (Float.ofInt value) = integer value
  | float value => Heap.numberToJson value = float value
  | _ => True

/-! ## Members -/

/-- A name behind all others goes to the end. -/
theorem insertMember_last {name : String} {members : List (String × Json)}
    (last : ∀ member ∈ members, member.1 < name) (value : Json) :
    insertMember name value members = members ++ [(name, value)] := by
  induction members with
  | nil => rfl
  | cons member rest ih =>
      rw [List.forall_mem_cons] at last
      have after : ¬name < member.1 := String.lt_asymm last.1
      have differs : ¬name = member.1 := fun same => String.lt_irrefl name (same ▸ last.1)
      rw [insertMember, if_neg after, if_neg differs, ih last.2, List.cons_append]

theorem foldl_insertMember {members : List (String × Json)} (ordered : List (String × Json))
    (ascending : (ordered ++ members).Pairwise fun first second => first.1 < second.1) :
    members.foldl (fun ordered member => insertMember member.1 member.2 ordered) ordered =
      ordered ++ members := by
  induction members generalizing ordered with
  | nil => simp
  | cons member rest ih =>
      have last : ∀ earlier ∈ ordered, earlier.1 < member.1 := fun earlier listed =>
        (List.pairwise_append.mp ascending).2.2 earlier listed member List.mem_cons_self
      rw [List.foldl_cons, insertMember_last last, ih, List.append_assoc, List.singleton_append]
      rwa [List.append_assoc, List.singleton_append]

/-- Members in ascending order make the object that lists them so. -/
theorem ofMembers_ascending {members : List (String × Json)} (ascending : (object members).Ascending) :
    ofMembers members = object members :=
  congrArg object (foldl_insertMember [] ascending)

end Json

namespace Heap

/-! ## Values that stand for data -/

/-- Whether a value in a heap stands for JSON data: whatever is added to the heap, and below
whatever newer containers it lies, it is read back as that data. -/
def StandsFor (heap : Heap) (value : Value) (json : Json) : Prop :=
  ∀ later, heap.Grows later → ∀ (depth : Nat) (path : List ContainerId),
    heap.containers.size ≤ depth → (∀ id ∈ path, heap.containers.size ≤ id.index) →
      later.toJsonWithin depth path value = some json

theorem StandsFor.mono {before after : Heap} {value : Value} {json : Json}
    (stands : before.StandsFor value json) (grows : before.Grows after) :
    after.StandsFor value json :=
  fun later added depth path enough newer => stands later (grows.trans added) depth path
    (Nat.le_trans grows.size_le enough) fun id member => Nat.le_trans grows.size_le (newer id member)

/-- What is known of a value that was made of JSON data. -/
structure Depicts (tracker : TrackerId) (before after : Heap) (value : Value) (json : Json) :
    Prop where
  /-- Containers were only added. -/
  grows : before.Grows after
  /-- The value belongs to the tracker. -/
  belongs : after.Belongs tracker value
  /-- The value stands for the data. -/
  stands : after.StandsFor value json

/-- What is known of values that were made of a row of data. -/
structure DepictsAll (tracker : TrackerId) (before after : Heap) (values : List Value)
    (items : List Json) : Prop where
  /-- Containers were only added. -/
  grows : before.Grows after
  /-- The values belong to the tracker. -/
  belongs : ∀ value ∈ values, after.Belongs tracker value
  /-- Each value stands for its item. -/
  stands : List.Forall₂ after.StandsFor values items

theorem DepictsAll.nil (tracker : TrackerId) (heap : Heap) : DepictsAll tracker heap heap [] [] :=
  ⟨.refl heap, fun _ member => absurd member List.not_mem_nil, .nil⟩

theorem DepictsAll.cons {tracker : TrackerId} {before between after : Heap} {value : Value}
    {values : List Value} {item : Json} {items : List Json}
    (first : Depicts tracker before between value item)
    (rest : DepictsAll tracker between after values items) :
    DepictsAll tracker before after (value :: values) (item :: items) where
  grows := first.grows.trans rest.grows
  belongs := List.forall_mem_cons.mpr ⟨first.belongs.mono rest.grows, rest.belongs⟩
  stands := .cons (first.stands.mono rest.grows) rest.stands

theorem Depicts.plain {tracker : TrackerId} {json : Json} (value : Value)
    (plain : ∀ id, value ≠ .container id) (heap : Heap)
    (read : ∀ later depth path, toJsonWithin later depth path value = some json) :
    Depicts tracker heap heap value json :=
  ⟨.refl heap, fun id same => absurd same (plain id), fun later _ depth path _ _ => read later depth path⟩

theorem foreignTo_of_belongs {heap : Heap} {tracker : TrackerId} {values : List Value}
    (belongs : ∀ value ∈ values, heap.Belongs tracker value) : heap.foreignTo tracker values = [] := by
  refine List.filterMap_eq_nil_iff.mpr fun value member => ?_
  cases value with
  | container id => exact if_pos (belongs _ member id rfl).2
  | _ => rfl

/-- A new container of values that stand for data stands for what its contents are read as. -/
theorem Depicts.container {tracker : TrackerId} {before between : Heap} {values : List Value}
    {items : List Json} {contents : Contents} {json : Json}
    (all : DepictsAll tracker before between values items)
    (read : ∀ (later : Heap) depth path, later.contents ⟨between.containers.size⟩ = contents →
      List.Forall₂ (fun value item => later.toJsonWithin depth
        (⟨between.containers.size⟩ :: path) value = some item) values items →
      ⟨between.containers.size⟩ ∉ path →
        later.toJsonWithin (depth + 1) path (.container ⟨between.containers.size⟩) = some json) :
    Depicts tracker before (between.newContainer tracker contents).2
      (.container ⟨between.containers.size⟩) json := by
  have added := newContainer_grows between tracker contents
  have size : (between.newContainer tracker contents).2.containers.size =
      between.containers.size + 1 := by simp [newContainer]
  have here : (between.newContainer tracker contents).2.container ⟨between.containers.size⟩ =
      ⟨tracker, contents⟩ := by rw [container_newContainer, if_pos rfl]
  refine ⟨all.grows.trans added, fun id same => ?_, fun later more depth path enough newer => ?_⟩
  · obtain rfl := Value.container.inj same
    rw [size, owner, here]
    exact ⟨Nat.lt_succ_self _, rfl⟩
  · rw [size] at enough newer
    obtain ⟨depth, rfl⟩ : ∃ less, depth = less + 1 := ⟨depth - 1, by omega⟩
    refine read later depth path ?_ (all.stands.imp fun value item stands => ?_) fun listed => ?_
    · rw [Heap.contents, more.container _ (by rw [size]; exact Nat.lt_succ_self _), here]
    · refine stands later (added.trans more) depth _ (by omega) fun id member => ?_
      rcases List.mem_cons.mp member with rfl | inner
      · exact Nat.le_refl _
      · exact Nat.le_of_succ_le (newer id inner)
    · exact absurd (newer _ listed) (Nat.not_succ_le_self _)

theorem mapM_of_forall₂ {α β : Type} {read : α → Option β} {values : List α} {items : List β}
    (each : List.Forall₂ (fun value item => read value = some item) values items) :
    values.mapM read = some items := by
  induction each with
  | nil => rfl
  | cons first _ ih => simp [List.mapM_cons, first, ih]

/-- Entries are read as members, if their texts are the names and their values are read as the
items. -/
theorem mapM_entries {read : Value → Option Json} {entries : List (Key × Value)}
    {members : List (String × Json)}
    (names : entries.map (fun entry => entry.1.text) = members.map Prod.fst)
    (each : List.Forall₂ (fun value item => read value = some item) (entries.map Prod.snd)
      (members.map Prod.snd)) :
    (entries.mapM fun entry => (read entry.2).map fun json => (entry.1.text, json)) =
      some members := by
  refine mapM_of_forall₂ ?_
  induction entries generalizing members with
  | nil => exact List.map_eq_nil_iff.mp names.symm ▸ .nil
  | cons entry rest ih =>
      cases members with
      | nil => contradiction
      | cons member others =>
          simp only [List.map_cons, List.cons.injEq, List.forall₂_cons] at names each
          refine .cons ?_ (ih names.2 each.2)
          rw [each.1, names.1, Option.map_some]

/-! ## Data -/

theorem fst_ofJsonMembers (tracker : TrackerId) (members : List (String × Json)) (heap : Heap) :
    (ofJsonMembers tracker members heap).1.map Prod.fst =
      members.map fun member => Key.ofText member.1 := by
  induction members generalizing heap with
  | nil => rfl
  | cons member rest ih =>
      exact congrArg (Key.ofText member.1 :: ·) (ih (ofJson tracker member.2 heap).2)

theorem text_fst_ofJsonMembers (tracker : TrackerId) (members : List (String × Json)) (heap : Heap) :
    (ofJsonMembers tracker members heap).1.map (fun entry => entry.1.text) =
      members.map Prod.fst := by
  have texts := congrArg (List.map Key.text) (fst_ofJsonMembers tracker members heap)
  simpa only [List.map_map, Function.comp_def, Key.text_ofText] using texts

/-- Members with distinct names become properties under distinct keys. -/
theorem nodup_ofJsonMembers (tracker : TrackerId) {members : List (String × Json)}
    (ascending : (Json.object members).Ascending) (heap : Heap) :
    ((ofJsonMembers tracker members heap).1.map Prod.fst).Nodup := by
  rw [fst_ofJsonMembers]
  refine List.Pairwise.map _ (fun first second before same => ?_) ascending
  exact String.lt_irrefl _ (Key.ofText_inj.mp same ▸ before)

mutual

theorem ofJson_depicts (tracker : TrackerId) : ∀ (json : Json) (heap : Heap),
    json.Throughout Json.Ascending → json.Throughout Json.SurvivesFloat →
    Depicts tracker heap (ofJson tracker json heap).2 (ofJson tracker json heap).1 json
  | .null, heap, _, _ => .plain .null (by simp) heap fun _ depth _ => by cases depth <;> rfl
  | .bool value, heap, _, _ =>
      .plain (.bool value) (by simp) heap fun _ depth _ => by cases depth <;> rfl
  | .string text, heap, _, _ =>
      .plain (.text text) (by simp) heap fun _ depth _ => by cases depth <;> rfl
  | .integer value, heap, _, survives =>
      .plain (.number (Float.ofInt value)) (by simp) heap fun _ depth _ => by
        cases depth <;> exact congrArg some survives
  | .float value, heap, _, survives =>
      .plain (.number value) (by simp) heap fun _ depth _ => by
        cases depth <;> exact congrArg some survives
  | .array items, heap, ascending, survives => by
      have all := ofJsonItems_depicts tracker items heap ascending.2 survives.2
      have made : ofJson tracker (.array items) heap =
          ((.container (newArray tracker (ofJsonItems tracker items heap).1
              (ofJsonItems tracker items heap).2).1),
            (newArray tracker (ofJsonItems tracker items heap).1
              (ofJsonItems tracker items heap).2).2) := rfl
      rw [made, newArray_of_owner (foreignTo_of_belongs all.belongs)]
      refine Depicts.container all fun later depth path contents each new => ?_
      rw [toJsonWithin, if_neg new, contents]
      exact congrArg (Option.map Json.array) (mapM_of_forall₂ each)
  | .object members, heap, ascending, survives => by
      have all := ofJsonMembers_depicts tracker members heap ascending.2 survives.2
      let entries := (ofJsonMembers tracker members heap).1
      have made : ofJson tracker (.object members) heap =
          ((.container (newObject tracker entries (ofJsonMembers tracker members heap).2).1),
            (newObject tracker entries (ofJsonMembers tracker members heap).2).2) := rfl
      rw [made, newObject_of_owner (foreignTo_of_belongs all.belongs)]
      refine Depicts.container all fun later depth path contents each new => ?_
      rw [toJsonWithin, if_neg new, contents]
      dsimp only
      rw [Assoc.entries_ofList (nodup_ofJsonMembers tracker ascending.1 heap)]
      rw [mapM_entries (text_fst_ofJsonMembers tracker members heap) each, Option.map_some,
        Json.ofMembers_ascending ascending.1]

theorem ofJsonItems_depicts (tracker : TrackerId) : ∀ (items : List Json) (heap : Heap),
    Json.ThroughoutItems Json.Ascending items → Json.ThroughoutItems Json.SurvivesFloat items →
    DepictsAll tracker heap (ofJsonItems tracker items heap).2 (ofJsonItems tracker items heap).1
      items
  | [], heap, _, _ => .nil tracker heap
  | item :: rest, heap, ascending, survives =>
      .cons (ofJson_depicts tracker item heap ascending.1 survives.1)
        (ofJsonItems_depicts tracker rest _ ascending.2 survives.2)

theorem ofJsonMembers_depicts (tracker : TrackerId) : ∀ (members : List (String × Json))
    (heap : Heap), Json.ThroughoutMembers Json.Ascending members →
    Json.ThroughoutMembers Json.SurvivesFloat members →
    DepictsAll tracker heap (ofJsonMembers tracker members heap).2
      ((ofJsonMembers tracker members heap).1.map Prod.snd) (members.map Prod.snd)
  | [], heap, _, _ => .nil tracker heap
  | (_, item) :: rest, heap, ascending, survives =>
      .cons (ofJson_depicts tracker item heap ascending.1 survives.1)
        (ofJsonMembers_depicts tracker rest _ ascending.2 survives.2)

end

/-- JSON data that was put under the control of a tracker is read back as it was, whatever else is
in the heap, if each number in it is still the same after it has been a double. -/
theorem toJson_ofJson (tracker : TrackerId) (heap : Heap) {json : Json}
    (ascending : json.Throughout Json.Ascending) (survives : json.Throughout Json.SurvivesFloat) :
    (ofJson tracker json heap).2.toJson? (ofJson tracker json heap).1 = some json :=
  (ofJson_depicts tracker json heap ascending survives).stands _ (.refl _) _ []
    (Nat.le_refl _) fun _ member => absurd member List.not_mem_nil

/-- An object whose names look like indices, in canonical form or not, up to the greatest index and
beyond it. -/
def nearIndices : Json :=
  .object
    [("", .null), ("+1", .string "signed"), ("00", .array [.bool true, .null, .object []]),
      ("18446744073709551615", .string "greatest"), ("18446744073709551616", .string "beyond"),
      ("7", .object [("0", .bool false), ("length", .array [])])]

theorem nearIndices_toJson : nearIndices.Throughout Json.Ascending ∧
    nearIndices.Throughout Json.SurvivesFloat ∧
    (ofJson ⟨0⟩ nearIndices empty).2.toJson? (ofJson ⟨0⟩ nearIndices empty).1 = some nearIndices := by
  have ascending : nearIndices.Throughout Json.Ascending := by
    simp only [nearIndices, Json.Throughout, Json.ThroughoutItems, Json.ThroughoutMembers,
      Json.Ascending]
    decide
  have survives : nearIndices.Throughout Json.SurvivesFloat := by
    simp only [nearIndices, Json.Throughout, Json.ThroughoutItems, Json.ThroughoutMembers,
      Json.SurvivesFloat, and_self]
  exact ⟨ascending, survives, toJson_ofJson ⟨0⟩ empty ascending survives⟩

end Heap

end LiveMarkup
