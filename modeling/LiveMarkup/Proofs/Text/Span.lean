import Mathlib.Data.List.Basic

/-!
# Where a run of characters ends

Names, words and blanks are read as the longest run of characters of a kind.  A text that was put
together from such runs is taken apart at the same places, as long as no run is followed by one
more character of its own kind.
-/

namespace LiveMarkup

/-- Whether a text does not go on with a character of a kind. -/
def Stops (kind : Char → Bool) (rest : List Char) : Prop := ∀ c ∈ rest.head?, kind c = false

variable {kind : Char → Bool} {front rest : List Char}

@[simp]
theorem stops_nil : Stops kind [] := by simp [Stops]

@[simp]
theorem stops_cons {c : Char} : Stops kind (c :: rest) ↔ kind c = false := by simp [Stops]

theorem Stops.takeWhile (stops : Stops kind rest) : rest.takeWhile kind = [] := by
  cases rest with
  | nil => rfl
  | cons c rest => rw [List.takeWhile_cons_of_neg (by simp [stops_cons.mp stops])]

theorem Stops.dropWhile (stops : Stops kind rest) : rest.dropWhile kind = rest := by
  cases rest with
  | nil => rfl
  | cons c rest => rw [List.dropWhile_cons_of_neg (by simp [stops_cons.mp stops])]

theorem takeWhile_run (inside : ∀ c ∈ front, kind c = true) (stops : Stops kind rest) :
    (front ++ rest).takeWhile kind = front := by
  rw [List.takeWhile_append_of_pos inside, stops.takeWhile, List.append_nil]

theorem dropWhile_run (inside : ∀ c ∈ front, kind c = true) (stops : Stops kind rest) :
    (front ++ rest).dropWhile kind = rest := by
  rw [List.dropWhile_append_of_pos inside, stops.dropWhile]

/-- A text without a mark is a run of other characters. -/
theorem ne_of_not_mem {mark : Char} (free : mark ∉ front) :
    ∀ c ∈ front, decide (c ≠ mark) = true := fun c member => by
  simpa using fun same : c = mark => free (same ▸ member)

end LiveMarkup
