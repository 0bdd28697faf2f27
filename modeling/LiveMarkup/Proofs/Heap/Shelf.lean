import LiveMarkup.Proofs.Reactive.Tidy

/-!
# Arrays as padded lists

What an array stores is a list that is undefined from its length on and, apart from it, a table of
names.  The list gives every position an item, so a write behind the last item leaves no gap that
would have to be filled, and cutting the list off only forgets items.
-/

namespace LiveMarkup

/-- A list that is undefined from its length on, and a table of names. -/
structure Shelf where
  /-- The number of items. -/
  length : Nat
  /-- The item at a position. -/
  item : Nat → Value
  /-- The value under a name. -/
  named : String → Option Value
  /-- There is nothing behind the last item. -/
  padded : ∀ position, length ≤ position → item position = .undefined

namespace Shelf

variable {shelf : Shelf}

/-- Stores an item. -/
def put (shelf : Shelf) (position : Nat) (value : Value) : Shelf where
  length := max shelf.length (position + 1)
  item other := if other = position then value else shelf.item other
  named := shelf.named
  padded other beyond := by
    rw [if_neg (by omega)]
    exact shelf.padded other (by omega)

/-- Gives the list a length. -/
def resize (shelf : Shelf) (length : Nat) : Shelf where
  length := length
  item position := if position < length then shelf.item position else .undefined
  named := shelf.named
  padded _ beyond := if_neg (Nat.not_lt_of_le beyond)

/-- Stores a value under a name. -/
def putNamed (shelf : Shelf) (name : String) (value : Value) : Shelf :=
  { shelf with named := fun other => if other = name then some value else shelf.named other }

/-- The last item, which is undefined if there is none. -/
def last (shelf : Shelf) : Value := shelf.item (shelf.length - 1)

/-- Removes the last item. -/
def dropLast (shelf : Shelf) : Shelf := shelf.resize (shelf.length - 1)

/-- What a write asks for. -/
inductive Change where
  /-- A value is to be stored at a position. -/
  | put (position : Nat) (value : Value)
  /-- The list is to have the length that a number names; the text is for a refusal. -/
  | resize (number : Float) (shown : String)
  /-- A value is to be stored under a name. -/
  | putNamed (name : String) (value : Value)
  /-- The last item is to be removed. -/
  | dropLast

/-- The shelf after a change, unless the change is refused. -/
def after (shelf : Shelf) : Change → Except ReactiveFault Shelf
  | .put position value =>
      if position < maxArrayLength then .ok (shelf.put position value)
      else .error (.indexOutOfRange position maxArrayLength)
  | .resize number shown =>
      match Contents.validLength? number with
      | some length => .ok (shelf.resize length)
      | none => .error (.invalidLength shown)
  | .putNamed name value => .ok (shelf.putNamed name value)
  | .dropLast => .ok shelf.dropLast

/-- The shelf after a change, which is the same as before if the change is refused. -/
def next (shelf : Shelf) (change : Change) : Shelf :=
  match shelf.after change with
  | .ok after => after
  | .error _ => shelf

theorem validLength?_le {number : Float} {length : Nat}
    (valid : Contents.validLength? number = some length) : length ≤ maxArrayLength := by
  simp only [Contents.validLength?] at valid
  split at valid
  · split at valid
    next both =>
      obtain rfl := Option.some.inj valid
      exact both.2
    next => cases valid
  · cases valid

/-- No change lets the list grow beyond the greatest length. -/
theorem length_next_le (shelf : Shelf) (change : Change) :
    (shelf.next change).length ≤ max shelf.length maxArrayLength := by
  cases change with
  | put position value =>
      by_cases room : position < maxArrayLength
      · rw [next, after, if_pos room]
        exact Nat.max_le.mpr ⟨Nat.le_max_left _ _, Nat.le_trans room (Nat.le_max_right _ _)⟩
      · rw [next, after, if_neg room]
        exact Nat.le_max_left _ _
  | resize number shown =>
      cases valid : Contents.validLength? number with
      | some length =>
          simp only [next, after, valid]
          exact Nat.le_trans (validLength?_le valid) (Nat.le_max_right _ _)
      | none =>
          simp only [next, after, valid]
          exact Nat.le_max_left _ _
  | putNamed name value => exact Nat.le_max_left _ _
  | dropLast => exact Nat.le_trans (Nat.sub_le _ _) (Nat.le_max_left _ _)

/-! ## Arrays that store a shelf -/

/-- Whether the items and the table of an array are those of a shelf. -/
structure Stored (shelf : Shelf) (items : Array Value) (table : Assoc Key Value) : Prop where
  /-- There are as many items. -/
  size : items.size = shelf.length
  /-- The items are the same. -/
  item : ∀ position, items[position]?.getD .undefined = shelf.item position
  /-- Names have the same values. -/
  named : ∀ name, name ≠ "length" → table.get? (.name name) = shelf.named name
  /-- The table holds neither an index nor `length`. -/
  nominal : ∀ key ∈ table.keys, key.Nominal

namespace Stored

variable {items : Array Value} {table : Assoc Key Value}

theorem put (stored : shelf.Stored items table) (position : Nat) (value : Value) :
    (shelf.put position value).Stored (Contents.storeItem items position value) table where
  size := by
    have size : items.size = shelf.length := stored.size
    rw [Contents.size_storeItem, size]
    rfl
  item other := by
    rw [Contents.getElem?_storeItem, stored.item]
    rfl
  named := stored.named
  nominal := stored.nominal

theorem resize (stored : shelf.Stored items table) (length : Nat) :
    (shelf.resize length).Stored (Contents.resize items length) table where
  size := Contents.size_resize items length
  item position := by
    rw [Contents.getElem?_resize, stored.item]
    rfl
  named := stored.named
  nominal := stored.nominal

theorem putNamed (stored : shelf.Stored items table) {name : String} (ordinary : name ≠ "length")
    (value : Value) : (shelf.putNamed name value).Stored items (table.insert (.name name) value) where
  size := stored.size
  item := stored.item
  named other differs := by
    rw [Assoc.get?_insert, stored.named other differs, Shelf.putNamed]
    simp only [Key.name.injEq, eq_comm]
  nominal key member := by
    rcases Assoc.mem_keys_insert member with old | new
    · exact stored.nominal key old
    · exact ⟨name, ordinary, new⟩

theorem last (stored : shelf.Stored items table) : items.back?.getD .undefined = shelf.last := by
  rw [Shelf.last, ← stored.item, ← stored.size, Array.back?]

theorem dropLast (stored : shelf.Stored items table) : shelf.dropLast.Stored items.pop table where
  size := by rw [Array.size_pop, stored.size]; rfl
  item position := by
    change items.pop[position]?.getD .undefined =
      if position < shelf.length - 1 then shelf.item position else .undefined
    rw [Array.getElem?_pop, stored.size]
    split
    · exact stored.item position
    · rfl
  named := stored.named
  nominal := stored.nominal

end Stored

end Shelf

namespace Contents

variable {contents : Contents} {shelf : Shelf}

/-- Whether contents are those of an array that reads as a shelf. -/
structure Shows (contents : Contents) (shelf : Shelf) : Prop where
  /-- The contents are those of an array. -/
  isArray : contents.isArray = true
  /-- The array has as many items. -/
  count : contents.count = shelf.length
  /-- Every position has the same item. -/
  item : ∀ position, contents.lookup (.index position) = shelf.item position
  /-- The number of items reads as `length`. -/
  length : contents.lookup .length = .ofNat shelf.length
  /-- Names have the same values. -/
  named : ∀ name, name ≠ "length" →
    contents.lookup (.name name) = (shelf.named name).getD .undefined
  /-- There are exactly the indices below the length. -/
  hasItem : ∀ position, contents.contains (.index position) = true ↔ position < shelf.length
  /-- There always is a length. -/
  hasLength : contents.contains .length = true
  /-- There are the names of the shelf. -/
  hasNamed : ∀ name, name ≠ "length" →
    contents.contains (.name name) = (shelf.named name).isSome
  /-- The table holds neither an index nor `length`. -/
  nominal : ∀ key ∈ contents.table.keys, key.Nominal

theorem Shows.of_stored {items : Array Value} {table : Assoc Key Value}
    (stored : shelf.Stored items table) : (array items table).Shows shelf where
  isArray := rfl
  count := stored.size
  item := stored.item
  length := congrArg Value.ofNat stored.size
  named name ordinary := by
    simp only [lookup, Key.isLength_name ordinary, stored.named name ordinary]
    rfl
  hasItem position := by
    rw [← stored.size]
    exact decide_eq_true_iff
  hasLength := rfl
  hasNamed name ordinary := by
    simp only [contains, Key.isLength_name ordinary, Assoc.contains, stored.named name ordinary]
    rfl
  nominal := stored.nominal

theorem Shows.stored (shows : contents.Shows shelf) :
    ∃ items table, contents = array items table ∧ shelf.Stored items table := by
  cases contents with
  | object properties => exact absurd shows.isArray Bool.false_ne_true
  | array items table =>
      refine ⟨items, table, rfl, shows.count, shows.item, fun name ordinary => ?_, shows.nominal⟩
      have value := shows.named name ordinary
      have present := shows.hasNamed name ordinary
      simp only [lookup, Key.isLength_name ordinary] at value
      simp only [contains, Key.isLength_name ordinary, Assoc.contains] at present
      cases found : table.get? (.name name) with
      | none =>
          rw [found] at present
          exact (Option.not_isSome_iff_eq_none.mp (present ▸ Bool.false_ne_true)).symm
      | some stored =>
          rw [found] at present value
          obtain ⟨given, same⟩ := Option.isSome_iff_exists.mp present.symm
          rw [same] at value ⊢
          exact congrArg some value

/-- Every array with a tidy table reads as a shelf. -/
theorem Tidy.shows (tidy : contents.Tidy) (isArray : contents.isArray = true) :
    ∃ shelf, contents.Shows shelf := by
  cases contents with
  | object properties => exact absurd isArray Bool.false_ne_true
  | array items table =>
      let shelf : Shelf :=
        { length := items.size
          item := fun position => items[position]?.getD .undefined
          named := fun name => table.get? (.name name)
          padded := fun position beyond => by rw [Array.getElem?_eq_none beyond, Option.getD_none] }
      exact ⟨shelf, .of_stored ⟨rfl, fun _ => rfl, fun _ _ => rfl, tidy.nominal isArray⟩⟩

end Contents

end LiveMarkup
