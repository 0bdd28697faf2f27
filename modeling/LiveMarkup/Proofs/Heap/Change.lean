import LiveMarkup.Heap.Basic

/-!
# What a write changes

A write under a key changes what is read under that key.  On an array it may change the length as
well, and cutting an array off at a shorter length changes what is read at the positions that are
gone.  Nothing else changes, and these lemmas say so for every kind of contents.
-/

namespace LiveMarkup

namespace Assoc

variable {κ α : Type} [DecidableEq κ]

theorem lookup_isSome (key : κ) (entries : List (κ × α)) :
    (lookup key entries).isSome = decide (key ∈ entries.map Prod.fst) := by
  induction entries with
  | nil => simp [lookup]
  | cons entry rest ih =>
      by_cases here : entry.1 = key
      · simp [lookup, here]
      · have there : ¬key = entry.1 := fun same => here same.symm
        simp [lookup, here, there, ih]

/-- A key has a value exactly if it is listed. -/
theorem contains_iff (map : Assoc κ α) (key : κ) : map.contains key = true ↔ key ∈ map.keys := by
  rw [contains, get?, lookup_isSome]
  exact decide_eq_true_iff

theorem contains_insert (map : Assoc κ α) (key other : κ) (value : α) :
    (map.insert key value).contains other = (decide (key = other) || map.contains other) := by
  rw [contains, get?_insert, contains]
  by_cases same : key = other <;> simp [same]

theorem length_put (key : κ) (value : α) (entries : List (κ × α)) :
    (put key value entries).length =
      if key ∈ entries.map Prod.fst then entries.length else entries.length + 1 := by
  have keys := congrArg List.length (map_fst_put key value entries)
  rw [List.length_map] at keys
  rw [keys]
  split <;> simp

/-- Writing a key that is there keeps the size; a new key adds one. -/
theorem size_insert (map : Assoc κ α) (key : κ) (value : α) :
    (map.insert key value).size = if map.contains key then map.size else map.size + 1 := by
  have present := length_put key value map.entries
  by_cases there : map.contains key = true
  · have listed : key ∈ map.entries.map Prod.fst := (contains_iff map key).mp there
    rw [if_pos listed] at present
    rw [if_pos there]
    exact present
  · have unlisted : key ∉ map.entries.map Prod.fst :=
      fun listed => there ((contains_iff map key).mpr listed)
    rw [if_neg unlisted] at present
    rw [if_neg there]
    exact present

theorem mem_put {key : κ} {value : α} {entries : List (κ × α)} {entry : κ × α}
    (member : entry ∈ put key value entries) : entry ∈ entries ∨ entry = (key, value) := by
  induction entries with
  | nil => exact .inr (List.mem_singleton.mp member)
  | cons head rest ih =>
      simp only [put] at member
      split at member
      · rcases List.mem_cons.mp member with here | there
        · exact .inr here
        · exact .inl (List.mem_cons_of_mem head there)
      · rcases List.mem_cons.mp member with here | there
        · exact .inl (here ▸ List.mem_cons_self)
        · exact (ih there).imp_left (List.mem_cons_of_mem head)

theorem mem_foldl_insert {entries : List (κ × α)} {map : Assoc κ α} {entry : κ × α}
    (member : entry ∈ (entries.foldl (fun map entry => map.insert entry.1 entry.2) map).entries) :
    entry ∈ map.entries ∨ entry ∈ entries := by
  induction entries generalizing map with
  | nil => exact .inl member
  | cons head rest ih =>
      rcases ih member with earlier | later
      · rcases mem_put earlier with old | new
        · exact .inl old
        · exact .inr (new ▸ List.mem_cons_self)
      · exact .inr (List.mem_cons_of_mem head later)

/-- A map made of entries holds none but these. -/
theorem mem_ofList {entries : List (κ × α)} {entry : κ × α}
    (member : entry ∈ (ofList entries).entries) : entry ∈ entries :=
  (mem_foldl_insert member).resolve_left List.not_mem_nil

theorem mem_of_lookup {key : κ} {value : α} {entries : List (κ × α)}
    (found : lookup key entries = some value) : (key, value) ∈ entries := by
  induction entries with
  | nil => contradiction
  | cons head rest ih =>
      simp only [lookup] at found
      split at found
      next here =>
        obtain rfl := Option.some.inj found
        exact here ▸ List.mem_cons_self
      next => exact List.mem_cons_of_mem head (ih found)

end Assoc

namespace Contents

/-! ## Lists of items -/

theorem size_resize (items : Array Value) (length : Nat) : (resize items length).size = length := by
  unfold resize
  split
  · simp only [Array.size_extract]
    omega
  · simp only [Array.size_append, Array.size_replicate]
    omega

/-- Below the new length an item stays; one that is missing there reads as undefined. -/
theorem getElem?_resize (items : Array Value) (length position : Nat) :
    (resize items length)[position]?.getD .undefined =
      if position < length then items[position]?.getD .undefined else .undefined := by
  unfold resize
  split
  next fits =>
    rw [Array.getElem?_extract]
    by_cases below : position < length
    · simp [below, fits, Nat.lt_of_lt_of_le below fits]
    · simp [below, fits]
  next grows =>
    rw [Array.getElem?_append]
    by_cases inside : position < items.size
    · have below : position < length := by omega
      simp [inside, below]
    · have missing : items[position]? = none := Array.getElem?_eq_none (by omega)
      rw [if_neg inside, missing, Array.getElem?_replicate]
      by_cases below : position - items.size < length - items.size <;> simp [below]

/-- Storing an item changes what is read at its position only: a gap before it reads as it did. -/
theorem getElem?_storeItem (items : Array Value) (position other : Nat) (value : Value) :
    (storeItem items position value)[other]?.getD .undefined =
      if other = position then value else items[other]?.getD .undefined := by
  unfold storeItem
  split
  next inside =>
    rw [Array.getElem?_set]
    by_cases same : position = other
    · simp [same]
    · have differs : ¬other = position := fun equal => same equal.symm
      simp [same, differs]
  next outside =>
    rw [Array.getElem?_push, size_resize]
    by_cases same : other = position
    · simp [same]
    · rw [if_neg same, if_neg same, getElem?_resize]
      by_cases below : other < position
      · simp [below]
      · have missing : items[other]? = none := Array.getElem?_eq_none (by omega)
        simp [below, missing]

theorem size_storeItem (items : Array Value) (position : Nat) (value : Value) :
    (storeItem items position value).size = max items.size (position + 1) := by
  unfold storeItem
  split
  · rw [Array.size_set]
    omega
  · rw [Array.size_push, size_resize]
    omega

/-! ## Keys of an array -/

@[simp] theorem isLength_length : Key.length.isLength = true := rfl

@[simp] theorem isLength_index (position : Nat) : (Key.index position).isLength = false := rfl

theorem eq_length_of_isLength {key : Key} (isLength : key.isLength = true) : key = .length :=
  beq_iff_eq.mp isLength

/-! ## Writes under a key -/

/-- What storing a value under a key makes of contents. -/
inductive Sets (value : Value) : Key → Contents → Contents → Prop
  /-- An object gets a property. -/
  | property (properties : Assoc Key Value) (key : Key) :
      Sets value key (.object properties) (.object (properties.insert key value))
  /-- An array gets a name in its table. -/
  | name (items : Array Value) (named : Assoc Key Value) (text : String) :
      Sets value (.name text) (.array items named) (.array items (named.insert (.name text) value))
  /-- An array gets an item. -/
  | item (items : Array Value) (named : Assoc Key Value) (position : Nat) :
      Sets value (.index position) (.array items named)
        (.array (storeItem items position value) named)

theorem sets_of_store {key : Key} {value : Value} {before after : Contents}
    (stored : before.store key value = .ok after) : Sets value key before after := by
  cases before with
  | object properties =>
      obtain rfl := Except.ok.inj stored
      exact .property properties key
  | array items named =>
      cases key with
      | name text =>
          obtain rfl := Except.ok.inj stored
          exact .name items named text
      | index position =>
          simp only [store] at stored
          split at stored
          · obtain rfl := Except.ok.inj stored
            exact .item items named position
          · contradiction

theorem isArray_store {key : Key} {value : Value} {before after : Contents}
    (stored : before.store key value = .ok after) : after.isArray = before.isArray := by
  cases sets_of_store stored <;> rfl

/-- A write under a key that is no array's length changes what is read under that key, and the
length of an array. -/
theorem lookup_store {key other : Key} {value : Value} {before after : Contents}
    (stored : before.store key value = .ok after) (unlike : other ≠ key)
    (content : other.isLength = false ∨ before.isArray = false) :
    after.lookup other = before.lookup other := by
  have elsewhere : ¬key = other := fun same => unlike same.symm
  cases sets_of_store stored with
  | property properties key => simp [lookup, Assoc.get?_insert, elsewhere]
  | name items named text =>
      have ordinary : other.isLength = false := content.resolve_right (by simp [isArray])
      cases other with
      | index position => rfl
      | name otherText => simp [lookup, ordinary, Assoc.get?_insert, elsewhere]
  | item items named position =>
      have ordinary : other.isLength = false := content.resolve_right (by simp [isArray])
      cases other with
      | name otherText => simp [lookup, ordinary]
      | index otherPosition =>
          have differs : ¬otherPosition = position := fun same => unlike (by rw [same])
          simp [lookup, getElem?_storeItem, differs]

/-- What is written under a key is read under it. -/
theorem lookup_store_self {key : Key} {value : Value} {before after : Contents}
    (stored : before.store key value = .ok after)
    (ordinary : key.isLength = false ∨ before.isArray = false) : after.lookup key = value := by
  cases sets_of_store stored with
  | property properties key => simp [lookup, Assoc.get?_insert]
  | name items named text =>
      have notLength : (Key.name text).isLength = false :=
        ordinary.resolve_right (by simp [isArray])
      simp [lookup, notLength, Assoc.get?_insert]
  | item items named position => simp [lookup, getElem?_storeItem]

/-- Whether a name, or any property of an object, is there changes only by a write under it. -/
theorem contains_store {key other : Key} {value : Value} {before after : Contents}
    (stored : before.store key value = .ok after) (unlike : other ≠ key)
    (plain : before.isArray = false ∨ ∃ text, other = .name text) :
    after.contains other = before.contains other := by
  have elsewhere : ¬key = other := fun same => unlike same.symm
  cases sets_of_store stored with
  | property properties key => simp [contains, Assoc.contains_insert, elsewhere]
  | name items named text =>
      obtain ⟨otherText, rfl⟩ := plain.resolve_left (by simp [isArray])
      simp [contains, Assoc.contains_insert, elsewhere]
  | item items named position =>
      obtain ⟨text, rfl⟩ := plain.resolve_left (by simp [isArray])
      rfl

theorem contains_store_self {key : Key} {value : Value} {before after : Contents}
    (stored : before.store key value = .ok after) (isObject : before.isArray = false) :
    after.contains key = true := by
  cases sets_of_store stored with
  | property properties key => simp [contains, Assoc.contains_insert]
  | name | item => contradiction

/-! ## Taking the last item away -/

theorem eq_of_pop? {position : Nat} {last : Value} {before after : Contents}
    (popped : before.pop? = some (position, last, after)) :
    ∃ items named, before = .array items named ∧ items.back? = some last ∧
      position = items.size - 1 ∧ after = .array items.pop named := by
  cases before with
  | object properties => contradiction
  | array items named =>
      cases back : items.back? with
      | none => simp [pop?, back] at popped
      | some value =>
          simp only [pop?, back, Option.some.injEq, Prod.mk.injEq] at popped
          obtain ⟨rfl, rfl, rfl⟩ := popped
          exact ⟨items, named, rfl, back, rfl, rfl⟩

/-! ## What reads alike -/

/-- Whether a key reads alike in two contents: it has the same value, it is there in both or in
neither unless it is an index of an array, and as the length of an array it stands for the same number
of items. -/
structure Alike (before after : Contents) (key : Key) : Prop where
  /-- The value is the same. -/
  value : after.lookup key = before.lookup key
  /-- An array has the same number of items. -/
  count : before.isArray = true → key = .length → after.count = before.count
  /-- A name, or any property of an object, is there or not as before. -/
  present : (before.isArray = false ∨ ∃ text, key = .name text) →
    after.contains key = before.contains key

theorem Alike.refl (contents : Contents) (key : Key) : contents.Alike contents key :=
  ⟨rfl, fun _ _ => rfl, fun _ => rfl⟩

theorem Alike.trans {first second third : Contents} {key : Key} (before : first.Alike second key)
    (after : second.Alike third key) (kind : second.isArray = first.isArray) :
    first.Alike third key where
  value := after.value.trans before.value
  count isArray length := (after.count (kind.trans isArray) length).trans (before.count isArray length)
  present plain := by
    rw [after.present (kind ▸ plain), before.present plain]

theorem lookup_length {contents : Contents} (isArray : contents.isArray = true) :
    contents.lookup .length = Value.ofNat contents.count := by
  cases contents with
  | object properties => contradiction
  | array items named => rfl

/-- A write under one key leaves the other keys alike, an array's length if it is kept. -/
theorem alike_of_store {key other : Key} {value : Value} {before after : Contents}
    (stored : before.store key value = .ok after) (unlike : other ≠ key)
    (kept : before.isArray = true → other = .length → after.count = before.count) :
    before.Alike after other where
  value := by
    by_cases length : before.isArray = true ∧ other = .length
    · obtain ⟨isArray, rfl⟩ := length
      have stays : after.isArray = true := (isArray_store stored).trans isArray
      rw [lookup_length stays, lookup_length isArray, kept isArray rfl]
    · refine lookup_store stored unlike ?_
      cases isArray : before.isArray with
      | false => exact .inr rfl
      | true =>
          refine .inl (Bool.eq_false_iff.mpr fun isLength => length ⟨isArray, ?_⟩)
          exact eq_length_of_isLength isLength
  count := kept
  present := contains_store stored unlike

/-- Taking the last item of an array away leaves all keys alike but its position and the length. -/
theorem alike_of_pop {position : Nat} {last : Value} {before after : Contents} {other : Key}
    (popped : before.pop? = some (position, last, after)) (unlike : other ≠ .index position)
    (notLength : other ≠ .length) : before.Alike after other := by
  obtain ⟨items, named, rfl, -, rfl, rfl⟩ := eq_of_pop? popped
  refine ⟨?_, fun _ same => absurd same notLength, fun plain => ?_⟩
  · cases other with
    | name text =>
        have ordinary : (Key.name text).isLength = false :=
          Bool.eq_false_iff.mpr fun isLength => notLength (eq_length_of_isLength isLength)
        simp [lookup, ordinary]
    | index otherPosition =>
        have differs : otherPosition ≠ items.size - 1 := fun same => unlike (by rw [same])
        simp only [lookup, Array.getElem?_pop]
        by_cases below : otherPosition < items.size - 1
        · rw [if_pos below]
        · rw [if_neg below, Array.getElem?_eq_none (by omega)]
  · obtain ⟨text, rfl⟩ := plain.resolve_left (by simp [isArray])
    rfl

/-! ## The values inside -/

/-- The values that a container holds. -/
def values : Contents → List Value
  | object properties => properties.entries.map Prod.snd
  | array items named => items.toList ++ named.entries.map Prod.snd

/-- What is read was held, or it is undefined or a length. -/
theorem lookup_cases (contents : Contents) (key : Key) :
    contents.lookup key ∈ contents.values ∨ contents.lookup key = .undefined ∨
      contents.lookup key = .ofNat contents.count := by
  have found (map : Assoc Key Value) :
      (map.get? key).getD .undefined ∈ map.entries.map Prod.snd ∨
        (map.get? key).getD .undefined = .undefined := by
    cases present : map.get? key with
    | none => exact .inr rfl
    | some value =>
        exact .inl (List.mem_map.mpr ⟨(key, value), Assoc.mem_of_lookup present, rfl⟩)
  cases contents with
  | object properties => exact (found properties).imp_right .inl
  | array items named =>
      cases key with
      | index position =>
          simp only [lookup]
          cases present : items[position]? with
          | none => exact .inr (.inl rfl)
          | some value =>
              exact .inl (List.mem_append_left _
                (Array.mem_toList_iff.mpr (Array.mem_of_getElem? present)))
      | name text =>
          simp only [lookup]
          split
          · exact .inr (.inr rfl)
          · exact (found named).imp (List.mem_append_right _) .inl

/-- A container that is read was held. -/
theorem mem_values_of_lookup {contents : Contents} {key : Key} {id : ContainerId}
    (found : contents.lookup key = .container id) : .container id ∈ contents.values := by
  rcases contents.lookup_cases key with member | undefined | length
  · rw [← found]
    exact member
  · rw [found] at undefined
    contradiction
  · rw [found] at length
    contradiction

theorem mem_resize {items : Array Value} {length : Nat} {value : Value}
    (member : value ∈ resize items length) : value ∈ items ∨ value = .undefined := by
  unfold resize at member
  split at member
  · obtain ⟨position, _, rfl⟩ := Array.mem_extract_iff_getElem.mp member
    exact .inl (Array.getElem_mem _)
  · rcases Array.mem_append.mp member with old | new
    · exact .inl old
    · exact .inr (Array.eq_of_mem_replicate new)

theorem mem_storeItem {items : Array Value} {position : Nat} {stored value : Value}
    (member : value ∈ storeItem items position stored) :
    value ∈ items ∨ value = stored ∨ value = .undefined := by
  unfold storeItem at member
  split at member
  · rcases Array.mem_or_eq_of_mem_set member with old | new
    · exact .inl old
    · exact .inr (.inl new)
  · rcases Array.mem_push.mp member with old | new
    · exact (mem_resize old).imp_right .inr
    · exact .inr (.inl new)

/-- A write under a key brings in the written value, and undefined where it leaves a gap. -/
theorem mem_values_store {key : Key} {stored value : Value} {before after : Contents}
    (write : before.store key stored = .ok after) (member : value ∈ after.values) :
    value ∈ before.values ∨ value = stored ∨ value = .undefined := by
  have inserted {map : Assoc Key Value}
      (member : value ∈ (map.insert key stored).entries.map Prod.snd) :
      value ∈ map.entries.map Prod.snd ∨ value = stored := by
    obtain ⟨entry, listed, rfl⟩ := List.mem_map.mp member
    rcases Assoc.mem_put listed with old | new
    · exact .inl (List.mem_map.mpr ⟨entry, old, rfl⟩)
    · exact .inr (by rw [new])
  cases sets_of_store write with
  | property properties key => exact (inserted member).imp_right .inl
  | name items named text =>
      rcases List.mem_append.mp member with item | property
      · exact .inl (List.mem_append_left _ item)
      · exact (inserted property).imp (List.mem_append_right _) .inl
  | item items named position =>
      rcases List.mem_append.mp member with item | property
      · refine (mem_storeItem (Array.mem_toList_iff.mp item)).imp_left fun old => ?_
        exact List.mem_append_left _ (Array.mem_toList_iff.mpr old)
      · exact .inl (List.mem_append_right _ property)

theorem mem_values_setLength {length : Nat} {value : Value} {before : Contents}
    (member : value ∈ (before.setLength length).values) :
    value ∈ before.values ∨ value = .undefined := by
  cases before with
  | object properties => exact .inl member
  | array items named =>
      rcases List.mem_append.mp member with item | property
      · refine (mem_resize (Array.mem_toList_iff.mp item)).imp_left fun old => ?_
        exact List.mem_append_left _ (Array.mem_toList_iff.mpr old)
      · exact .inl (List.mem_append_right _ property)

theorem mem_values_of_pop {position : Nat} {last : Value} {before after : Contents}
    (popped : before.pop? = some (position, last, after)) : last ∈ before.values := by
  obtain ⟨items, named, rfl, back, -, -⟩ := eq_of_pop? popped
  exact List.mem_append_left _ (Array.mem_toList_iff.mpr (Array.mem_of_back? back))

theorem mem_values_pop {position : Nat} {last value : Value} {before after : Contents}
    (popped : before.pop? = some (position, last, after)) (member : value ∈ after.values) :
    value ∈ before.values := by
  obtain ⟨items, named, rfl, -, -, rfl⟩ := eq_of_pop? popped
  rcases List.mem_append.mp member with item | property
  · refine List.mem_append_left _ (Array.mem_toList_iff.mpr ?_)
    rw [Array.toList_pop] at item
    exact Array.mem_toList_iff.mp ((List.dropLast_sublist _).subset item)
  · exact List.mem_append_right _ property

end Contents

end LiveMarkup
