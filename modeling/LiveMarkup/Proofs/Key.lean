import LiveMarkup.Key

/-!
# Keys and their texts

A text that is the canonical decimal form of an index addresses that index, and every other text
addresses a name.  Writing the key gives the text again in both cases, so no two texts address the
same property; and the text of an index addresses that index again.
-/

namespace LiveMarkup

namespace Decimal

/-- A digit is the one of its value. -/
theorem digitChar_value {c : Char} (digit : c.isDigit = true) :
    c.toNat - '0'.toNat < 10 ∧ Nat.digitChar (c.toNat - '0'.toNat) = c ∧ '0'.toNat ≤ c.toNat := by
  have range := Char.isDigit_iff_toNat.mp digit
  have zero : '0'.toNat = 48 := rfl
  have nine : '9'.toNat = 57 := rfl
  have small : c.toNat - '0'.toNat < 10 := by omega
  refine ⟨small, Char.toNat_inj.mp ?_, range.1⟩
  rw [Nat.toNat_digitChar_of_lt_ten small]
  omega

/-- Digits behind a number that is not zero are put behind its text. -/
theorem naturalText_foldl {digits : List Char} {value : Nat} (pos : 0 < value)
    (digit : ∀ c ∈ digits, c.isDigit = true) :
    naturalText (digits.foldl (fun value digit => value * 10 + (digit.toNat - '0'.toNat)) value) =
      naturalText value ++ digits := by
  induction digits generalizing value with
  | nil => simp
  | cons c rest ih =>
      rw [List.forall_mem_cons] at digit
      obtain ⟨small, last, _⟩ := digitChar_value digit.1
      have appended := Nat.toDigits_append_toDigits (b := 10) (n := value) (by decide) pos small
      rw [Nat.toDigits_of_lt_base small, last, Nat.mul_comm] at appended
      rw [List.foldl_cons, ih (by omega) digit.2, naturalText, naturalText, ← appended,
        List.append_assoc, List.singleton_append]

/-- Digits without a leading zero are the text of their value. -/
theorem naturalText_digitsValue {digits : List Char} (present : digits ≠ [])
    (digit : ∀ c ∈ digits, c.isDigit = true) (canonical : digits = ['0'] ∨ digits.head? ≠ some '0') :
    naturalText (digitsValue digits) = digits := by
  rcases canonical with rfl | leading
  · rfl
  cases digits with
  | nil => exact absurd rfl present
  | cons c rest =>
      rw [List.forall_mem_cons] at digit
      obtain ⟨small, first, atLeast⟩ := digitChar_value digit.1
      have differs : c.toNat ≠ '0'.toNat := fun same => leading (congrArg some (Char.toNat_inj.mp same))
      rw [digitsValue, List.foldl_cons, Nat.zero_mul, Nat.zero_add,
        naturalText_foldl (by omega) digit.2, naturalText, Nat.toDigits_of_lt_base small, first,
        List.singleton_append]

/-- The text of a number has the value of the number. -/
theorem digitsValue_naturalText (n : Nat) : digitsValue (naturalText n) = n := by
  have value := Nat.ofDigitChars_ten_toDigits (n := n)
  rw [Nat.ofDigitChars_eq_foldl] at value
  simpa only [digitsValue, naturalText, Nat.mul_comm] using value

theorem isDigit_naturalText {n : Nat} {c : Char} (member : c ∈ naturalText n) : c.isDigit = true :=
  Nat.isDigit_of_mem_toDigits (by decide) (Nat.le_refl 10) member

/-- Only the text of zero starts with a zero. -/
theorem head_naturalText {n : Nat} (pos : 0 < n) : (naturalText n).head? ≠ some '0' := by
  induction n using Nat.base_induction 10 (by decide) with
  | single n small =>
      rw [naturalText, Nat.toDigits_of_lt_base small, List.head?_cons, ne_eq, Option.some.injEq,
        Nat.digitChar_eq_zero]
      omega
  | digit n last small front ih =>
      have leading := ih front
      obtain ⟨first, rest, shape⟩ := List.exists_cons_of_ne_nil (Nat.toDigits_ne_nil (n := n) (b := 10))
      rw [naturalText, shape] at leading
      rw [naturalText, ← Nat.toDigits_append_toDigits (by decide) front small, shape]
      exact leading

end Decimal

namespace Key

/-- The key that a text addresses has that text. -/
theorem text_ofText (text : String) : (ofText text).text = text := by
  unfold ofText
  split
  next position found =>
    unfold canonicalIndex? at found
    split at found
    next canonical =>
      obtain ⟨present, digit, leading⟩ := canonical
      simp only [Option.ite_none_right_eq_some, Option.some.injEq] at found
      rw [Key.text, ← found.2,
        Decimal.naturalText_digitsValue present (List.all_eq_true.mp digit) leading,
        String.ofList_toList]
    next => contradiction
  next => rfl

/-- No two texts address the same property. -/
theorem ofText_inj {first second : String} : ofText first = ofText second ↔ first = second := by
  refine ⟨fun same => ?_, congrArg ofText⟩
  rw [← text_ofText first, same, text_ofText]

theorem canonicalIndex?_naturalText (n : Nat) :
    canonicalIndex? (Decimal.naturalText n) = if n ≤ maxIndex then some n else none := by
  have leading : Decimal.naturalText n = ['0'] ∨ (Decimal.naturalText n).head? ≠ some '0' := by
    rcases Nat.eq_zero_or_pos n with rfl | pos
    · exact .inl (Nat.toDigits_zero 10)
    · exact .inr (Decimal.head_naturalText pos)
  have digits : (Decimal.naturalText n).all Char.isDigit = true :=
    List.all_eq_true.mpr fun _ => Decimal.isDigit_naturalText
  rw [canonicalIndex?, if_pos ⟨Nat.toDigits_ne_nil, digits, leading⟩,
    Decimal.digitsValue_naturalText]

/-- The text of an index addresses the index. -/
theorem ofText_text_index {n : Nat} (small : n ≤ maxIndex) : ofText (index n).text = index n := by
  rw [ofText, text, String.toList_ofList, canonicalIndex?_naturalText, if_pos small]

/-- The text of a number beyond all indices is a name. -/
theorem ofText_naturalText_of_lt {n : Nat} (large : maxIndex < n) :
    ofText (String.ofList (Decimal.naturalText n)) = name (String.ofList (Decimal.naturalText n)) := by
  rw [ofText, String.toList_ofList, canonicalIndex?_naturalText, if_neg (Nat.not_le.mpr large)]

end Key

end LiveMarkup
