import LiveMarkup.Value

/-!
# Equality of doubles

Two doubles are equal if they stand for the same number.  The two zeros do, and what is no number
does not even equal itself.  So doubles are compared by what is left of them without the sign of
zero, as long as they are numbers.
-/

namespace LiveMarkup

open Float.Model (UnpackedFloat)

/-- A double without the sign of zero. -/
def withoutZeroSign : UnpackedFloat → UnpackedFloat
  | .zero _ => .zero .positive
  | number => number

theorem compare_then_eq {exponent power : Int} {mantissa other : Nat} :
    (compare exponent power).then (compare mantissa other) = .eq ↔
      mantissa = other ∧ exponent = power := by
  rw [Ordering.then_eq_eq, Int.compare_eq_eq, Nat.compare_eq_eq, and_comm]

theorem withoutZeroSign_of_compare {a b : UnpackedFloat} (equal : a.compare b = some .eq) :
    a ≠ .notANumber ∧ withoutZeroSign a = withoutZeroSign b := by
  -- numbers of other kinds or signs differ, so only mantissas and exponents are left to compare
  rcases a with ⟨_ | _⟩ | _ | _ | ⟨_ | _, mantissa, exponent, _⟩ <;>
    rcases b with ⟨_ | _⟩ | _ | _ | ⟨_ | _, other, power, _⟩ <;>
    first
      | cases equal; done
      | exact ⟨(by intro same; cases same), rfl⟩
      | obtain ⟨rfl, rfl⟩ := compare_then_eq.mp (Option.some.inj equal)
        exact ⟨(by intro same; cases same), rfl⟩
      | obtain ⟨rfl, rfl⟩ := compare_then_eq.mp (Ordering.swap_eq_eq.mp (Option.some.inj equal))
        exact ⟨(by intro same; cases same), rfl⟩

theorem compare_of_withoutZeroSign {a b : UnpackedFloat} (number : a ≠ .notANumber)
    (same : withoutZeroSign a = withoutZeroSign b) : a.compare b = some .eq := by
  rcases a with ⟨_ | _⟩ | _ | _ | ⟨_ | _, mantissa, exponent, _⟩ <;>
    rcases b with ⟨_ | _⟩ | _ | _ | ⟨_ | _, other, power, _⟩ <;>
    first
      | cases same; done
      | exact absurd rfl number
      | rfl
      | cases same
        exact congrArg some (compare_then_eq.mpr ⟨rfl, rfl⟩)
      | cases same
        exact congrArg some (Ordering.swap_eq_eq.mpr (compare_then_eq.mpr ⟨rfl, rfl⟩))

theorem unpacked_beq_iff {a b : UnpackedFloat} :
    a.beq b = true ↔ a ≠ .notANumber ∧ withoutZeroSign a = withoutZeroSign b := by
  change (a.compare b == some .eq) = true ↔ _
  rw [beq_iff_eq]
  exact ⟨withoutZeroSign_of_compare, fun both => compare_of_withoutZeroSign both.1 both.2⟩

theorem isNaN_iff {x : Float} : x.isNaN = true ↔ x.toModel.unpack = .notANumber := by
  change x.toModel.unpack.isNaN = true ↔ _
  cases x.toModel.unpack with
  | notANumber => exact iff_of_true rfl rfl
  | _ => exact iff_of_false Bool.false_ne_true fun same => by cases same

theorem isNaN_eq_false_iff {x : Float} : x.isNaN = false ↔ x.toModel.unpack ≠ .notANumber := by
  rw [← Bool.not_eq_true, isNaN_iff]

/-- Doubles are equal if they are numbers and differ at most in the sign of zero. -/
theorem float_beq_iff {x y : Float} : (x == y) = true ↔
    x.isNaN = false ∧ withoutZeroSign x.toModel.unpack = withoutZeroSign y.toModel.unpack := by
  rw [isNaN_eq_false_iff]
  exact unpacked_beq_iff

theorem withoutZeroSign_eq_notANumber {a : UnpackedFloat} :
    withoutZeroSign a = .notANumber ↔ a = .notANumber := by
  cases a with
  | notANumber => exact iff_of_true rfl rfl
  | _ => exact iff_of_false (fun same => by cases same) fun same => by cases same

/-- What equals a number is a number. -/
theorem isNaN_of_float_beq {x y : Float} (equal : (x == y) = true) :
    x.isNaN = false ∧ y.isNaN = false := by
  obtain ⟨number, same⟩ := float_beq_iff.mp equal
  refine ⟨number, isNaN_eq_false_iff.mpr fun other => ?_⟩
  rw [withoutZeroSign_eq_notANumber.mpr other, withoutZeroSign_eq_notANumber] at same
  exact isNaN_eq_false_iff.mp number same

theorem float_beq_symm {x y : Float} (equal : (x == y) = true) : (y == x) = true :=
  float_beq_iff.mpr ⟨(isNaN_of_float_beq equal).2, (float_beq_iff.mp equal).2.symm⟩

theorem float_beq_comm (x y : Float) : (x == y) = (y == x) :=
  Bool.eq_iff_iff.mpr ⟨float_beq_symm, float_beq_symm⟩

theorem float_beq_self {x : Float} (number : x.isNaN = false) : (x == x) = true :=
  float_beq_iff.mpr ⟨number, rfl⟩

end LiveMarkup
