/-!
# Finite maps that remember their order

Properties of an object, attributes of an element and bindings of an expression all keep the order
in which their names first came.  Writing a name that is there changes its value and not its place.
-/

namespace LiveMarkup

/-- A finite map as the list of its entries in order of insertion. -/
structure Assoc (κ α : Type) where
  /-- The entries, oldest first. -/
  entries : List (κ × α)
  deriving Repr, DecidableEq

namespace Assoc

variable {κ α : Type} [DecidableEq κ]

/-- The map without entries. -/
def empty : Assoc κ α := ⟨[]⟩

instance : Inhabited (Assoc κ α) := ⟨empty⟩

/-- The value under a key in a list of entries. -/
def lookup (key : κ) : List (κ × α) → Option α
  | [] => none
  | entry :: rest => if entry.1 = key then some entry.2 else lookup key rest

/-- The value under a key. -/
def get? (map : Assoc κ α) (key : κ) : Option α := lookup key map.entries

/-- Whether a key has a value. -/
def contains (map : Assoc κ α) (key : κ) : Bool := (map.get? key).isSome

/-- Replaces the value of the first entry under a key, or adds an entry at the end. -/
def put (key : κ) (value : α) : List (κ × α) → List (κ × α)
  | [] => [(key, value)]
  | entry :: rest =>
      if entry.1 = key then (key, value) :: rest else entry :: put key value rest

/-- Sets the value under a key. -/
def insert (map : Assoc κ α) (key : κ) (value : α) : Assoc κ α := ⟨put key value map.entries⟩

/-- Removes a key; the others keep their order. -/
def erase (map : Assoc κ α) (key : κ) : Assoc κ α :=
  ⟨map.entries.filter fun entry => entry.1 ≠ key⟩

/-- The map that results from inserting the entries one after another. -/
def ofList (entries : List (κ × α)) : Assoc κ α :=
  entries.foldl (fun map entry => map.insert entry.1 entry.2) empty

/-- The keys in order. -/
def keys (map : Assoc κ α) : List κ := map.entries.map Prod.fst

/-- The number of keys. -/
def size (map : Assoc κ α) : Nat := map.entries.length

/-- Applies a function to every value. -/
def mapValues {β : Type} (f : α → β) (map : Assoc κ α) : Assoc κ β :=
  ⟨map.entries.map fun entry => (entry.1, f entry.2)⟩

@[simp] theorem get?_empty (key : κ) : (empty : Assoc κ α).get? key = none := rfl

theorem lookup_put (key other : κ) (value : α) (entries : List (κ × α)) :
    lookup other (put key value entries) =
      if key = other then some value else lookup other entries := by
  induction entries with
  | nil => simp [put, lookup]
  | cons entry rest ih =>
      by_cases here : entry.1 = key
      · by_cases same : key = other <;> simp_all [put, lookup]
      · by_cases same : key = other
        · subst same
          simp [put, lookup, here, ih]
        · simp [put, lookup, here, ih, same]

/-- A write is read back under its key and changes no other key. -/
theorem get?_insert (map : Assoc κ α) (key other : κ) (value : α) :
    (map.insert key value).get? other = if key = other then some value else map.get? other :=
  lookup_put key other value map.entries

theorem put_put (key : κ) (first second : α) (entries : List (κ × α)) :
    put key second (put key first entries) = put key second entries := by
  induction entries with
  | nil => simp [put]
  | cons entry rest ih =>
      by_cases same : entry.1 = key
      · simp [put, same]
      · simp [put, same, ih]

/-- Of two values that are set under a key one after another, the second one stays. -/
theorem insert_insert (map : Assoc κ α) (key : κ) (first second : α) :
    (map.insert key first).insert key second = map.insert key second :=
  congrArg Assoc.mk (put_put key first second map.entries)

theorem map_fst_put (key : κ) (value : α) (entries : List (κ × α)) :
    (put key value entries).map Prod.fst =
      if key ∈ entries.map Prod.fst then entries.map Prod.fst
      else entries.map Prod.fst ++ [key] := by
  induction entries with
  | nil => simp [put]
  | cons entry rest ih =>
      by_cases here : entry.1 = key
      · simp [put, here]
      · have there : ¬key = entry.1 := fun same => here same.symm
        simp only [put, here, if_false, List.map_cons, ih, List.mem_cons, there, false_or]
        split <;> simp_all

/-- A present key keeps its place and a new key goes to the end. -/
theorem keys_insert (map : Assoc κ α) (key : κ) (value : α) :
    (map.insert key value).keys = if key ∈ map.keys then map.keys else map.keys ++ [key] :=
  map_fst_put key value map.entries

theorem mem_keys_insert {map : Assoc κ α} {key other : κ} {value : α}
    (member : other ∈ (map.insert key value).keys) : other ∈ map.keys ∨ other = key := by
  rw [keys_insert] at member
  split at member
  · exact .inl member
  · exact (List.mem_append.mp member).imp_right List.mem_singleton.mp

theorem nodup_insert {map : Assoc κ α} (distinct : map.keys.Nodup) (key : κ) (value : α) :
    (map.insert key value).keys.Nodup := by
  rw [keys_insert]
  split
  next => exact distinct
  next missing =>
    rw [List.nodup_append]
    refine ⟨distinct, List.pairwise_singleton _ key, fun other member last singleton same => ?_⟩
    rw [List.mem_singleton.mp singleton] at same
    exact missing (same ▸ member)

theorem put_of_new {key : κ} {value : α} {entries : List (κ × α)}
    (new : key ∉ entries.map Prod.fst) : put key value entries = entries ++ [(key, value)] := by
  induction entries with
  | nil => rfl
  | cons entry rest ih =>
      rw [List.map_cons, List.mem_cons, not_or] at new
      rw [put, if_neg (Ne.symm new.1), ih new.2, List.cons_append]

/-- Entries with different keys are kept as they are when they are inserted one after another. -/
theorem foldl_insert_of_nodup {entries : List (κ × α)} {map : Assoc κ α}
    (once : (map.keys ++ entries.map Prod.fst).Nodup) :
    entries.foldl (fun map entry => map.insert entry.1 entry.2) map = ⟨map.entries ++ entries⟩ := by
  induction entries generalizing map with
  | nil => simp
  | cons entry rest ih =>
      have new : entry.1 ∉ map.entries.map Prod.fst := by
        rw [List.map_cons, List.nodup_append] at once
        exact fun member => once.2.2 _ member _ List.mem_cons_self rfl
      have inserted : map.insert entry.1 entry.2 = ⟨map.entries ++ [entry]⟩ :=
        congrArg Assoc.mk (put_of_new new)
      rw [List.foldl_cons, inserted, ih]
      · simp
      · simpa [keys] using once

/-- Entries under distinct keys are all kept, in their order. -/
theorem entries_ofList {entries : List (κ × α)} (distinct : (entries.map Prod.fst).Nodup) :
    (ofList entries).entries = entries :=
  congrArg Assoc.entries (foldl_insert_of_nodup distinct)

end Assoc

end LiveMarkup
