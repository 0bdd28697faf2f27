import LiveMarkup.Proofs.Heap.Keys
import LiveMarkup.Proofs.Reactive.Tidy

/-!
# Tables of obtained keys

The table of a container is filled by those who make it and by those who write to it.  If they use
only keys that were obtained, so does the table; and no two properties of an object are written
alike, so its JSON has a member for each of them.
-/

namespace LiveMarkup

namespace Json

/-- A new name adds a member. -/
theorem insertMember_perm {name : String} {members : List (String × Json)}
    (new : name ∉ members.map Prod.fst) (value : Json) :
    (insertMember name value members).Perm ((name, value) :: members) := by
  induction members with
  | nil => exact .refl _
  | cons member rest ih =>
      rw [List.map_cons, List.mem_cons, not_or] at new
      rw [insertMember]
      split
      · exact .refl _
      · rw [if_neg new.1]
        exact ((ih new.2).cons member).trans (.swap (name, value) member rest)

theorem foldl_insertMember_perm {rows ordered : List (String × Json)}
    (distinct : ((ordered ++ rows).map Prod.fst).Nodup) :
    (rows.foldl (fun ordered row => insertMember row.1 row.2 ordered) ordered).Perm (ordered ++ rows) := by
  induction rows generalizing ordered with
  | nil => rw [List.foldl_nil, List.append_nil]
  | cons row rest ih =>
      have moved : (row :: (ordered ++ rest)).Perm (ordered ++ row :: rest) := List.perm_middle.symm
      have new : row.1 ∉ ordered.map Prod.fst := by
        have first := (moved.map Prod.fst).nodup_iff.mpr distinct
        rw [List.map_cons, List.nodup_cons, List.map_append, List.mem_append, not_or] at first
        exact first.1.1
      have inserted : (insertMember row.1 row.2 ordered ++ rest).Perm (ordered ++ row :: rest) :=
        ((insertMember_perm new row.2).append_right rest).trans moved
      exact (ih ((inserted.map Prod.fst).nodup_iff.mpr distinct)).trans inserted

/-- Rows with distinct names are the members of an object, each of them one. -/
theorem ofMembers_perm {rows : List (String × Json)} (distinct : (rows.map Prod.fst).Nodup) :
    ∃ members, ofMembers rows = object members ∧ members.Perm rows :=
  ⟨_, rfl, foldl_insertMember_perm distinct⟩

end Json

namespace Contents

/-- Whether all keys of the table were obtained. -/
def Keyed (contents : Contents) : Prop := ∀ key ∈ contents.table.keys, key.Obtained

/-- Whether contents may be written to under a key: it was obtained, or it is a position of an
array, whose items are not in its table. -/
def Accepts (contents : Contents) (key : Key) : Prop :=
  key.Obtained ∨ contents.isArray = true ∧ ∃ position, key = .index position

variable {before after : Contents} {key : Key} {value : Value}

theorem keyed_array (items : Array Value) : (array items .empty).Keyed :=
  fun _ member => absurd member List.not_mem_nil

theorem keyed_object {entries : List (Key × Value)} (obtained : ∀ entry ∈ entries, entry.1.Obtained) :
    (object (.ofList entries)).Keyed := by
  intro key member
  obtain ⟨entry, listed, rfl⟩ := List.mem_map.mp member
  exact obtained entry (Assoc.mem_ofList listed)

theorem obtained_insert {table : Assoc Key Value} (keyed : ∀ key ∈ table.keys, key.Obtained)
    (obtained : key.Obtained) : ∀ other ∈ (table.insert key value).keys, other.Obtained := by
  intro other member
  rcases Assoc.mem_keys_insert member with old | rfl
  · exact keyed other old
  · exact obtained

theorem Keyed.store (keyed : before.Keyed) (accepts : before.Accepts key)
    (stored : before.store key value = .ok after) : after.Keyed := by
  cases sets_of_store stored with
  | property properties key =>
      rcases accepts with obtained | ⟨isArray, -⟩
      · exact obtained_insert keyed obtained
      · exact absurd isArray Bool.false_ne_true
  | item items named position => exact keyed
  | name items named text =>
      rcases accepts with obtained | ⟨-, position, same⟩
      · exact obtained_insert keyed obtained
      · cases same

theorem Keyed.written (keyed : before.Keyed) (accepts : before.Accepts key)
    (written : Written key value before after) : after.Keyed := by
  cases written with
  | store _ stored => exact keyed.store accepts stored
  | resize length _ _ => cases before <;> exact keyed

theorem Keyed.pop {position : Nat} {last : Value} (keyed : before.Keyed)
    (popped : before.pop? = some (position, last, after)) : after.Keyed :=
  fun key member => keyed key (table_pop popped ▸ member)

/-- What is found in a keyed container is found under obtained keys. -/
theorem Keyed.obtained_of_contains {contents : Contents} (keyed : contents.Keyed) (fits : key.Fits)
    (found : contents.contains key = true) : key.Obtained := by
  cases contents with
  | object properties => exact keyed key ((Assoc.contains_iff properties key).mp found)
  | array items named =>
      cases key with
      | index position => exact .index fits
      | name text =>
          simp only [Contents.contains, Bool.or_eq_true] at found
          rcases found with isLength | listed
          · exact eq_length_of_isLength isLength ▸ .text "length"
          · exact keyed _ ((Assoc.contains_iff named _).mp listed)

end Contents

namespace Heap

/-- Whether the tables of all containers have obtained keys only. -/
def Keyed (heap : Heap) : Prop := ∀ id, (heap.contents id).Keyed

variable {heap : Heap} {tracker : TrackerId}

theorem Keyed.newContainer (keyed : heap.Keyed) {contents : Contents} (given : contents.Keyed) :
    (heap.newContainer tracker contents).2.Keyed := by
  intro id
  rw [Heap.contents, container_newContainer]
  split
  · exact given
  · exact keyed id

theorem Keyed.setContents (keyed : heap.Keyed) (id : ContainerId) {contents : Contents}
    (given : contents.Keyed) : (heap.setContents id contents).Keyed := by
  intro other
  rw [Heap.contents, container_setContents]
  split
  · exact given
  · exact keyed other

/-! ## What makes containers -/

/-- Whether a computation fills tables with obtained keys only, and yields something good. -/
def Fills {α : Type} (good : α → Prop) (computation : StateM Heap α) : Prop :=
  ∀ heap : Heap, heap.Keyed → (computation heap).2.Keyed ∧ good (computation heap).1

namespace Fills

variable {α β : Type} {good : α → Prop} {goodNext : β → Prop}

theorem pure {a : α} (holds : good a) : Fills good (Pure.pure a) := fun _ keyed => ⟨keyed, holds⟩

theorem bind {first : StateM Heap α} {next : α → StateM Heap β} (fills : Fills good first)
    (later : ∀ a, good a → Fills goodNext (next a)) : Fills goodNext (first >>= next) := by
  intro heap keyed
  obtain ⟨between, holds⟩ := fills heap keyed
  exact later _ holds _ between

theorem mapM {make : α → StateM Heap β} {list : List α} (each : ∀ a ∈ list, Fills goodNext (make a)) :
    Fills (fun results => ∀ b ∈ results, goodNext b) (list.mapM make) := by
  induction list with
  | nil => exact pure fun _ member => absurd member List.not_mem_nil
  | cons a rest ih =>
      rw [List.forall_mem_cons] at each
      rw [List.mapM_cons]
      refine (each.1).bind fun first holds => (ih each.2).bind fun others all => pure ?_
      exact List.forall_mem_cons.mpr ⟨holds, all⟩

section Build

variable {take : Value → StateM Heap Value} (takes : ∀ value, Fills (fun _ => True) (take value))

include takes

theorem buildArray (items : List Value) :
    Fills (fun _ => True) (Heap.buildArray tracker take items) :=
  (mapM fun item _ => takes item).bind fun items _ _ keyed =>
    ⟨keyed.newContainer (Contents.keyed_array items.toArray), trivial⟩

theorem buildObject {entries : List (Key × Value)} (obtained : ∀ entry ∈ entries, entry.1.Obtained) :
    Fills (fun _ => True) (Heap.buildObject tracker take entries) := by
  have each (entry : Key × Value) (member : entry ∈ entries) :
      Fills (fun entry : Key × Value => entry.1.Obtained) (do return (entry.1, ← take entry.2)) :=
    (takes entry.2).bind fun _ _ => pure (obtained entry member)
  exact (mapM each).bind fun entries obtained _ keyed =>
    ⟨keyed.newContainer (Contents.keyed_object obtained), trivial⟩

/-- What a container holds is built anew under the same keys. -/
theorem rebuild {contents : Contents} (keyed : contents.Keyed) :
    Fills (fun _ => True) (Heap.rebuild tracker take contents) := by
  cases contents with
  | array items named => exact buildArray takes items.toList
  | object properties =>
      exact buildObject takes fun entry member => keyed _ (List.mem_map_of_mem member)

end Build

theorem adoptWithin (depth : Nat) (value : Value) :
    Fills (fun _ => True) (Heap.adoptWithin tracker depth value) := by
  induction depth generalizing value with
  | zero =>
      cases value with
      | container id =>
          intro heap keyed
          by_cases own : heap.owner id = tracker
          · rw [adoptWithin_of_owner own]
            exact ⟨keyed, trivial⟩
          · rw [adoptWithin_zero own]
            exact ⟨keyed, trivial⟩
      | _ => exact pure trivial
  | succ depth ih =>
      cases value with
      | container id =>
          intro heap keyed
          by_cases own : heap.owner id = tracker
          · rw [adoptWithin_of_owner own]
            exact ⟨keyed, trivial⟩
          · rw [adoptWithin_succ own]
            exact ⟨(rebuild ih (keyed id) heap keyed).1, trivial⟩
      | _ => exact pure trivial

theorem adopt (value : Value) : Fills (fun _ => True) (Heap.adopt tracker value) :=
  fun heap keyed => adoptWithin heap.containers.size value heap keyed

theorem newObject {entries : List (Key × Value)} (obtained : ∀ entry ∈ entries, entry.1.Obtained) :
    Fills (fun _ => True) (Heap.newObject tracker entries) :=
  buildObject adopt obtained

theorem newArray (items : List Value) : Fills (fun _ => True) (Heap.newArray tracker items) :=
  buildArray adopt items

mutual

theorem ofJson : ∀ json, Fills (fun _ => True) (Heap.ofJson tracker json)
  | .null | .bool _ | .integer _ | .float _ | .string _ => pure trivial
  | .array items => (ofJsonItems items).bind fun _ _ => (newArray _).bind fun _ _ => pure trivial
  | .object members =>
      (ofJsonMembers members).bind fun _ obtained =>
        (newObject obtained).bind fun _ _ => pure trivial

theorem ofJsonItems : ∀ items, Fills (fun _ => True) (Heap.ofJsonItems tracker items)
  | [] => pure trivial
  | item :: rest => (ofJson item).bind fun _ _ => (ofJsonItems rest).bind fun _ _ => pure trivial

/-- The names of members are texts. -/
theorem ofJsonMembers : ∀ members,
    Fills (fun entries => ∀ entry ∈ entries, entry.1.Obtained) (Heap.ofJsonMembers tracker members)
  | [] => pure fun _ member => absurd member List.not_mem_nil
  | (name, item) :: rest =>
      (ofJson item).bind fun _ _ => (ofJsonMembers rest).bind fun _ obtained =>
        pure (List.forall_mem_cons.mpr ⟨.text name, obtained⟩)

end

end Fills

end Heap

/-- Whether a request names obtained keys only. -/
def Request.Keyed : Request → Prop
  | .object _ entries => ∀ entry ∈ entries, entry.1.Obtained
  | .array _ _ | .adopt _ _ | .data _ _ | .closure _ | .event _ | .amend _ _ => True

namespace Heap

variable {heap : Heap}

theorem Keyed.perform (keyed : heap.Keyed) {request : Request} (named : request.Keyed) :
    (request.perform heap).2.Keyed := by
  cases request with
  | object tracker entries => exact (Fills.newObject named heap keyed).1
  | array tracker items => exact (Fills.newArray items heap keyed).1
  | adopt tracker value => exact (Fills.adopt value heap keyed).1
  | data tracker json => exact (Fills.ofJson json heap keyed).1
  | closure code => exact keyed
  | event fresh => exact keyed
  | amend id change => exact keyed

/-! ## Members -/

/-- Whether a property is written to JSON as a row, inside the containers of a path. -/
def WritesRow (heap : Heap) (depth : Nat) (path : List ContainerId) (property : Key × Value)
    (row : String × Json) : Prop :=
  row.1 = property.1.text ∧ heap.toJsonWithin depth path property.2 = some row.2

variable {depth : Nat} {path : List ContainerId}

theorem writesRow_of_mapM {properties : List (Key × Value)} {rows : List (String × Json)}
    (written : (properties.mapM fun property =>
      (heap.toJsonWithin depth path property.2).map fun json => (property.1.text, json)) = some rows) :
    List.Forall₂ (heap.WritesRow depth path) properties rows := by
  induction properties generalizing rows with
  | nil =>
      obtain rfl := Option.some.inj written
      exact .nil
  | cons property rest ih =>
      simp only [List.mapM_cons, Option.bind_eq_bind, Option.bind_eq_some_iff, Option.map_eq_some_iff,
        Option.pure_def, Option.some.injEq] at written
      obtain ⟨_, ⟨json, read, rfl⟩, others, later, rfl⟩ := written
      exact .cons ⟨rfl, read⟩ (ih later)

theorem names_of_writesRow {properties : List (Key × Value)} {rows : List (String × Json)}
    (written : List.Forall₂ (heap.WritesRow depth path) properties rows) :
    rows.map Prod.fst = (properties.map Prod.fst).map Key.text := by
  induction written with
  | nil => rfl
  | cons row _ ih => rw [List.map_cons, List.map_cons, List.map_cons, row.1, ih]

/-- The texts of obtained keys are as distinct as the keys. -/
theorem nodup_map_text {keys : List Key} (obtained : ∀ key ∈ keys, key.Obtained)
    (distinct : keys.Nodup) : (keys.map Key.text).Nodup :=
  List.pairwise_map.mpr (distinct.imp_of_mem fun listed other differs alike =>
    differs ((obtained _ listed).eq_of_text (obtained _ other) alike))

/-- The JSON of an object has one member for each property. -/
theorem toJsonWithin_object {id : ContainerId} {properties : Assoc Key Value} {json : Json}
    (contents : heap.contents id = .object properties)
    (obtained : ∀ key ∈ properties.keys, key.Obtained) (distinct : properties.keys.Nodup)
    (written : heap.toJsonWithin (depth + 1) path (.container id) = some json) :
    ∃ rows members, List.Forall₂ (heap.WritesRow depth (id :: path)) properties.entries rows ∧
      json = .object members ∧ members.Perm rows := by
  rw [toJsonWithin] at written
  split at written
  next => contradiction
  next fresh =>
    rw [contents, Option.map_eq_some_iff] at written
    obtain ⟨rows, listed, rfl⟩ := written
    have each := writesRow_of_mapM listed
    have names : (rows.map Prod.fst).Nodup := by
      rw [names_of_writesRow each]
      exact nodup_map_text obtained distinct
    obtain ⟨members, made, perm⟩ := Json.ofMembers_perm names
    exact ⟨rows, members, each, made, perm⟩

end Heap

end LiveMarkup
