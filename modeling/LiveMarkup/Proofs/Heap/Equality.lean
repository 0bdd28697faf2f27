import LiveMarkup.Proofs.Heap.Showing
import LiveMarkup.Proofs.Number.Equality

/-!
# Laws of equality

There are three equalities of values: the strict one, the loose one, which converts values of
different kinds first, and sameness, for which even what is no number is the same as itself.  Here
loose equality is derived by rules of which each does one conversion; as no conversion can be
repeated, every comparison ends.  Loose equality is symmetric, sameness is an equivalence, and both
follow from strict equality.
-/

namespace LiveMarkup

namespace Value

/-! ## Sameness -/

/-- A value, or what is compared of a number. -/
def comparand : Value → Value ⊕ Float.Model.UnpackedFloat
  | number x => .inr (withoutZeroSign x.toModel.unpack)
  | value => .inl value

theorem sameValue_number_iff {x y : Float} : (number x).sameValue (number y) = true ↔
    withoutZeroSign x.toModel.unpack = withoutZeroSign y.toModel.unpack := by
  rw [sameValue, Bool.or_eq_true, Bool.and_eq_true, float_beq_iff]
  cases number : x.isNaN with
  | false => simp
  | true =>
      have same : withoutZeroSign x.toModel.unpack = withoutZeroSign y.toModel.unpack ↔
          y.isNaN = true := by
        rw [isNaN_iff.mp number, isNaN_iff, ← withoutZeroSign_eq_notANumber]
        exact eq_comm
      simp [same]

/-- Values are the same if what is compared of them is equal. -/
theorem sameValue_iff {left right : Value} :
    left.sameValue right = true ↔ left.comparand = right.comparand := by
  cases left with
  | number x =>
      cases right with
      | number y => rw [sameValue_number_iff, comparand, comparand, Sum.inr.injEq]
      | _ => simp [sameValue, strictEquals, comparand]
  | _ => cases right <;> simp [sameValue, strictEquals, comparand]

theorem sameValue_of_strictEquals {left right : Value} (equal : left.strictEquals right = true) :
    left.sameValue right = true := by
  cases left with
  | number x =>
      cases right with
      | number y => exact Bool.or_eq_true_iff.mpr (.inl equal)
      | _ => exact equal
  | _ => exact equal

/-! ## Kinds -/

/-- Whether two values of different kinds are brought to one kind before they are compared, or are
told apart by one of them being nullish. -/
def convertsWith : Value → Value → Bool
  | .undefined, _ | _, .undefined | .null, _ | _, .null | .bool _, _ | _, .bool _ => true
  | .number _, .text _ | .text _, .number _ => true
  | .container _, .text _ | .container _, .number _ => true
  | .text _, .container _ | .number _, .container _ => true
  | _, _ => false

/-- Whether a value is a truth value. -/
def isBool : Value → Bool
  | bool _ => true
  | _ => false

/-- Whether a value is a text or a number. -/
def isScalar : Value → Bool
  | text _ | number _ => true
  | _ => false

end Value

namespace Heap

/-- Whether the comparison of two values, by conversions one after another, ends with an answer. -/
inductive LooselyEquals (heap : Heap) : Value → Value → Bool → Prop
  /-- The nullish values equal each other and nothing else. -/
  | nullish {left right : Value} (some : (left.isNullish || right.isNullish) = true) :
      LooselyEquals heap left right (left.isNullish && right.isNullish)
  /-- A truth value counts as a number. -/
  | boolFirst {value : Bool} {right : Value} {answer : Bool} (present : right.isNullish = false)
      (compared : LooselyEquals heap (.number (if value then 1 else 0)) right answer) :
      LooselyEquals heap (.bool value) right answer
  | boolSecond {left : Value} {value answer : Bool} (present : left.isNullish = false)
      (kind : left.isBool = false)
      (compared : LooselyEquals heap left (.number (if value then 1 else 0)) answer) :
      LooselyEquals heap left (.bool value) answer
  /-- A text counts as a number if it meets one. -/
  | textFirst {text : String} {x : Float} :
      LooselyEquals heap (.text text) (.number x) (numberOfText text == x)
  | textSecond {x : Float} {text : String} :
      LooselyEquals heap (.number x) (.text text) (x == numberOfText text)
  /-- A container counts as the text that it shows if it meets a text or a number. -/
  | containerFirst {id : ContainerId} {right : Value} {text : String} {answer : Bool}
      (scalar : right.isScalar = true) (shows : heap.Shows [] (.container id) text)
      (compared : LooselyEquals heap (.text text) right answer) :
      LooselyEquals heap (.container id) right answer
  | containerSecond {left : Value} {id : ContainerId} {text : String} {answer : Bool}
      (scalar : left.isScalar = true) (shows : heap.Shows [] (.container id) text)
      (compared : LooselyEquals heap left (.text text) answer) :
      LooselyEquals heap left (.container id) answer
  /-- All others are compared strictly. -/
  | strict {left right : Value} (unconverted : left.convertsWith right = false) :
      LooselyEquals heap left right (left.strictEquals right)

variable {heap : Heap}

/-! ## Loose equality -/

theorem looselyEquals_scalars (heap : Heap) (left right : Value) (first : left.isScalar = true)
    (second : right.isScalar = true) : ∃ answer, heap.LooselyEquals left right answer := by
  cases left with
  | number x =>
      cases right with
      | number y => exact ⟨_, .strict rfl⟩
      | text content => exact ⟨_, .textSecond⟩
      | _ => contradiction
  | text content =>
      cases right with
      | number y => exact ⟨_, .textFirst⟩
      | text other => exact ⟨_, .strict rfl⟩
      | _ => contradiction
  | _ => contradiction

theorem looselyEquals_containerFirst (heap : Heap) (id : ContainerId) (right : Value)
    (scalar : right.isScalar = true) : ∃ answer, heap.LooselyEquals (.container id) right answer := by
  obtain ⟨text, shows, _⟩ := shows_display heap (.container id)
  obtain ⟨answer, compared⟩ := looselyEquals_scalars heap (.text text) right rfl scalar
  exact ⟨answer, .containerFirst scalar shows compared⟩

theorem looselyEquals_containerSecond (heap : Heap) (left : Value) (id : ContainerId)
    (scalar : left.isScalar = true) : ∃ answer, heap.LooselyEquals left (.container id) answer := by
  obtain ⟨text, shows, _⟩ := shows_display heap (.container id)
  obtain ⟨answer, compared⟩ := looselyEquals_scalars heap left (.text text) scalar rfl
  exact ⟨answer, .containerSecond scalar shows compared⟩

/-- A comparison without truth values ends. -/
theorem looselyEquals_of_not_bool (heap : Heap) (left right : Value) (first : left.isBool = false)
    (second : right.isBool = false) : ∃ answer, heap.LooselyEquals left right answer := by
  cases converts : left.convertsWith right with
  | false => exact ⟨_, .strict converts⟩
  | true =>
      cases nullish : left.isNullish || right.isNullish with
      | true => exact ⟨_, .nullish nullish⟩
      | false =>
          cases left with
          | container id =>
              have scalar : right.isScalar = true := by cases right <;> first | rfl | contradiction
              exact looselyEquals_containerFirst heap id right scalar
          | number x | text content =>
              cases right with
              | container id => exact looselyEquals_containerSecond heap _ id rfl
              | number y | text other => exact looselyEquals_scalars heap _ _ rfl rfl
              | _ => contradiction
          | _ => cases right <;> contradiction

/-- A truth value in the second place has become a number after one step. -/
theorem looselyEquals_of_not_boolFirst (heap : Heap) (left right : Value)
    (present : left.isNullish = false) (kind : left.isBool = false) :
    ∃ answer, heap.LooselyEquals left right answer := by
  cases right with
  | bool value =>
      obtain ⟨answer, compared⟩ :=
        looselyEquals_of_not_bool heap left (.number (if value then 1 else 0)) kind rfl
      exact ⟨answer, .boolSecond present kind compared⟩
  | _ => exact looselyEquals_of_not_bool heap _ _ kind rfl

/-- Every comparison ends. -/
theorem exists_looselyEquals (heap : Heap) (left right : Value) :
    ∃ answer, heap.LooselyEquals left right answer := by
  cases nullish : left.isNullish || right.isNullish with
  | true => exact ⟨_, .nullish nullish⟩
  | false =>
      obtain ⟨present, other⟩ := Bool.or_eq_false_iff.mp nullish
      cases left with
      | bool value =>
          obtain ⟨answer, compared⟩ :=
            looselyEquals_of_not_boolFirst heap (.number (if value then 1 else 0)) right rfl rfl
          exact ⟨answer, .boolFirst other compared⟩
      | _ => exact looselyEquals_of_not_boolFirst heap _ right present rfl

theorem looseEquals_of_nullish {left right : Value}
    (some : (left.isNullish || right.isNullish) = true) :
    heap.looseEquals left right = pure (left.isNullish && right.isNullish) := by
  rw [looseEquals, if_pos some]

theorem looseEquals_of_unconverted {left right : Value}
    (unconverted : left.convertsWith right = false) :
    heap.looseEquals left right = pure (left.strictEquals right) := by
  cases left <;> cases right <;> first | contradiction | rfl

theorem looseEquals_container_left {id : ContainerId} {right : Value} (scalar : right.isScalar = true) :
    heap.looseEquals (.container id) right =
      heap.display (.container id) >>= fun text => heap.looseEquals (.text text) right := by
  cases right <;> first | rfl | contradiction

theorem looseEquals_container_right {left : Value} {id : ContainerId} (scalar : left.isScalar = true) :
    heap.looseEquals left (.container id) =
      heap.display (.container id) >>= fun text => heap.looseEquals left (.text text) := by
  cases left <;> first | rfl | contradiction

theorem looseEquals_bool_right (left : Value) (value : Bool) :
    heap.looseEquals left (.bool value) = heap.looseEquals left (.number (if value then 1 else 0)) := by
  cases left <;> rfl

/-- Loose equality finds the answer that a comparison ends with. -/
theorem LooselyEquals.answers {left right : Value} {answer : Bool}
    (compared : heap.LooselyEquals left right answer) :
    (heap.looseEquals left right).Answers answer := by
  induction compared with
  | nullish some => rw [looseEquals_of_nullish some]; exact .pure _
  | boolFirst _ _ ih => exact ih
  | boolSecond _ _ _ ih => rw [looseEquals_bool_right]; exact ih
  | textFirst => exact .pure _
  | textSecond => exact .pure _
  | containerFirst scalar shows _ ih =>
      rw [looseEquals_container_left scalar]
      exact (shows_iff_display.mp shows).bind ih
  | containerSecond scalar shows _ ih =>
      rw [looseEquals_container_right scalar]
      exact (shows_iff_display.mp shows).bind ih
  | strict unconverted => rw [looseEquals_of_unconverted unconverted]; exact .pure _

theorem looselyEquals_iff_looseEquals {left right : Value} {answer : Bool} :
    heap.LooselyEquals left right answer ↔ (heap.looseEquals left right).Answers answer := by
  refine ⟨LooselyEquals.answers, fun answers => ?_⟩
  obtain ⟨found, compared⟩ := exists_looselyEquals heap left right
  exact answers.unique compared.answers ▸ compared

theorem plainEquals_comm (left right : Value) : plainEquals left right = plainEquals right left := by
  cases left <;> cases right <;> first | exact float_beq_comm _ _ | rfl | exact BEq.comm

/-- Loose equality is symmetric, down to what it reads. -/
theorem looseEquals_comm (heap : Heap) (left right : Value) :
    heap.looseEquals left right = heap.looseEquals right left := by
  rw [looseEquals, looseEquals, Bool.or_comm, Bool.and_comm]
  cases withoutBool left <;> cases withoutBool right <;>
    simp only [plainEquals_comm]

/-- What is strictly equal is loosely equal. -/
theorem looselyEquals_of_strictEquals {left right : Value} (equal : left.strictEquals right = true) :
    heap.LooselyEquals left right true := by
  have strict (unconverted : left.convertsWith right = false) :
      heap.LooselyEquals left right true := equal ▸ .strict unconverted
  cases left with
  | bool value =>
      cases right with
      | bool other =>
          obtain rfl : value = other := eq_of_beq equal
          have compared (x : Float) (number : x.isNaN = false) :
              heap.LooselyEquals (.number x) (.number x) true := by
            have found : heap.LooselyEquals (.number x) (.number x) (x == x) := .strict rfl
            rwa [float_beq_self number] at found
          exact .boolFirst rfl (.boolSecond rfl rfl (compared _ (by cases value <;> decide)))
      | _ => contradiction
  | undefined | null => cases right <;> first | exact .nullish rfl | contradiction
  | _ => cases right <;> first | exact strict rfl | contradiction

/-! ## The laws -/

/-- Every comparison by conversions ends, and loose equality finds its answer; loose equality is
symmetric; what is strictly equal is loosely equal and the same; sameness is an equivalence. -/
theorem equality_laws (heap : Heap) :
    (∀ left right, ∃ answer, heap.LooselyEquals left right answer) ∧
    (∀ left right answer,
      heap.LooselyEquals left right answer ↔ (heap.looseEquals left right).Answers answer) ∧
    (∀ left right, heap.looseEquals left right = heap.looseEquals right left) ∧
    (∀ left right, Value.strictEquals left right = true →
      (heap.looseEquals left right).Answers true ∧ left.sameValue right = true) ∧
    Equivalence fun left right => Value.sameValue left right = true := by
  refine ⟨exists_looselyEquals heap, fun _ _ _ => looselyEquals_iff_looseEquals,
    looseEquals_comm heap, fun left right equal => ⟨?_, Value.sameValue_of_strictEquals equal⟩, ?_⟩
  · exact (looselyEquals_of_strictEquals equal).answers
  · simp only [Value.sameValue_iff]
    exact (InvImage.equivalence _ Value.comparand eq_equivalence)

/-- An array in itself shows as a text, so it may be compared to texts. -/
theorem looped_equality : (looped.looseEquals (.container ⟨0⟩) (.text "a,b,a,b,,")).Answers true ∧
    Value.strictEquals (.number 0) (.number (-0)) = true ∧
    (looped.looseEquals (.number 0) (.number (-0))).Answers true := by
  obtain ⟨_, compared, _, strict, _⟩ := equality_laws looped
  have zeros : Value.strictEquals (.number 0) (.number (-0)) = true := by decide +kernel
  refine ⟨(compared _ _ _).mp ?_, zeros, (strict _ _ zeros).1⟩
  have shows : looped.Shows [] (.container ⟨0⟩) "a,b,a,b,," := shows_iff_display.mpr fun _ => rfl
  exact .containerFirst rfl shows (.strict rfl)

end Heap

end LiveMarkup
