import LiveMarkup.Proofs.Heap.Reach
import LiveMarkup.Proofs.Key

/-!
# Where keys come from

Keys are made of texts, of positions and of computed values.  Each such key is the one that its own
text addresses, so two of them that are written alike are the same.
-/

namespace LiveMarkup

namespace Key

/-- Whether a key was made of a text, of a position or of a value in brackets. -/
inductive Obtained : Key → Prop
  /-- The key that a text addresses. -/
  | text (text : String) : Obtained (ofText text)
  /-- An index that fits into a word. -/
  | index {position : Nat} (small : position ≤ maxIndex) : Obtained (index position)
  /-- The key that a value is turned into. -/
  | computed (heap : Heap) (value : Value) (reads : Array Access) :
      Obtained ((heap.keyOf value).run reads).1

theorem ofText_text_ofNumber? {x : Float} {key : Key} (found : ofNumber? x = some key) :
    ofText key.text = key := by
  simp only [ofNumber?] at found
  split at found
  next position _ =>
    rw [Option.ite_none_right_eq_some, Option.some.injEq] at found
    rw [← found.2]
    exact ofText_text_index (Nat.min_le_right position maxIndex)
  next => contradiction

theorem ofText_text_ofText (text : String) : ofText (ofText text).text = ofText text :=
  congrArg ofText (text_ofText text)

theorem ofText_text_keyOf (heap : Heap) (value : Value) (reads : Array Access) :
    ofText ((heap.keyOf value).run reads).1.text = ((heap.keyOf value).run reads).1 := by
  cases value with
  | number x =>
      simp only [Heap.keyOf]
      cases found : ofNumber? x with
      | some key => exact ofText_text_ofNumber? found
      | none => exact ofText_text_ofText _
  | _ => exact ofText_text_ofText _

/-- The keys that are made are those that their own texts address. -/
theorem obtained_iff {key : Key} : key.Obtained ↔ ofText key.text = key := by
  constructor
  · intro obtained
    cases obtained with
    | text text => exact ofText_text_ofText text
    | index small => exact ofText_text_index small
    | computed heap value reads => exact ofText_text_keyOf heap value reads
  · exact fun same => same ▸ .text key.text

/-- Whether a key is made of a text or of a position that fits into a word. -/
def Fits : Key → Prop
  | name _ => True
  | index position => position ≤ maxIndex

/-- Keys that are written alike are the same. -/
theorem Obtained.eq_of_text {first second : Key} (obtained : first.Obtained) (other : second.Obtained)
    (alike : first.text = second.text) : first = second := by
  rw [← obtained_iff.mp obtained, alike, obtained_iff.mp other]

end Key

namespace Heap

/-- The key of a value in brackets is obtained. -/
theorem keyOf_obtained {heap : Heap} {inside : ContainerId → Prop} (encloses : heap.Encloses inside)
    {value : Value} (within : value.In inside) :
    Watch.Stays inside Key.Obtained (heap.keyOf value) where
  result reads := .computed heap value reads
  reads := (keyOf_stays encloses within).reads

end Heap

end LiveMarkup
