import LiveMarkup.Expr.Evaluation
import LiveMarkup.Proofs.Key

/-!
# Computed keys

A computed member addresses the key that its value is turned into, and a number takes a short way
there. It leads to the key of the number's display text, with one exception.  The greatest index is
no double; the number above it is one, and on the short way it counts as an index, that of the
greatest, whereas its text is a name.
-/

namespace LiveMarkup

namespace Exact

/-- An integral value that is not too large for it shows all its digits. -/
theorem display_of_natural {value : Exact} {n : Nat} (natural : value.natural? = some n)
    (nonneg : value.isNegative = false) (small : n < Nat.pow 10 21) :
    value.display = Decimal.naturalText n := by
  cases value with
  | nan | infinite => contradiction
  | finite negative mantissa exponent =>
      cases n with
      | zero =>
          simp only [display, natural]
          exact (Nat.toDigits_zero 10).symm
      | succ n =>
          have positive : negative = false := by
            cases negative with
            | false => rfl
            | true =>
                -- a value without a mantissa is zero
                obtain rfl : mantissa = 0 := by simpa [isNegative] using nonneg
                simp [natural?] at natural
          rw [display, natural, positive]
          exact if_pos small

theorem integer?_eq_some_natCast {value : Exact} {n : Nat} (pos : 0 < n) :
    value.integer? = some (n : Int) ↔ value.natural? = some n ∧ value.isNegative = false := by
  rw [integer?]
  cases natural : value.natural? with
  | none => simp
  | some magnitude =>
      cases value.isNegative with
      | false =>
          have same : some (magnitude : Int) = some (n : Int) ↔ some magnitude = some n := by
            rw [Option.some_inj, Option.some_inj, Int.natCast_inj]
          exact same.trans (and_iff_left rfl).symm
      | true =>
          have below : -(magnitude : Int) ≠ n := by omega
          simp [below]

end Exact

namespace Value

/-- Whether a value is the number right above the greatest index. -/
def IsAboveIndices : Value → Prop
  | number x => (Exact.ofFloat x).integer? = some (Key.maxIndex + 1 : Nat)
  | _ => False

end Value

namespace Key

/-- The short way of a number, if there is one, leads to an index.  It is that of the number, except
above the greatest index. -/
theorem ofNumber?_eq_some {x : Float} {key : Key} (found : ofNumber? x = some key) :
    (∃ n, n ≤ maxIndex ∧ (Exact.ofFloat x).display = Decimal.naturalText n ∧ key = index n) ∨
      (Value.number x).IsAboveIndices ∧ key = index maxIndex := by
  simp only [ofNumber?] at found
  split at found
  next n natural =>
    rw [Option.ite_none_right_eq_some, Option.some.injEq] at found
    obtain ⟨⟨nonneg, bound⟩, rfl⟩ := found
    rcases Nat.lt_or_ge maxIndex n with above | within
    · obtain rfl : n = maxIndex + 1 := by omega
      exact .inr ⟨(Exact.integer?_eq_some_natCast (by decide)).mpr ⟨natural, nonneg⟩, rfl⟩
    · have small : n < Nat.pow 10 21 := Nat.lt_of_le_of_lt within (by decide)
      exact .inl ⟨n, within, Exact.display_of_natural natural nonneg small,
        congrArg index (Nat.min_eq_left within)⟩
  next => contradiction

end Key

namespace Heap

theorem display_number (heap : Heap) (x : Float) : heap.display (.number x) = pure (displayNumber x) := by
  cases size : heap.containers.size <;> rw [display, size, displayWithin]

theorem display_text (heap : Heap) (text : String) : heap.display (.text text) = pure text := by
  cases size : heap.containers.size <;> rw [display, size, displayWithin]

/-- Above the greatest index the short way leads to the greatest index. -/
theorem keyOf_of_isAboveIndices (heap : Heap) {x : Float} (above : (Value.number x).IsAboveIndices) :
    heap.keyOf (.number x) = pure (.index Key.maxIndex) ∧
      heap.display (.number x) = pure (String.ofList (Decimal.naturalText (Key.maxIndex + 1))) := by
  obtain ⟨natural, nonneg⟩ := (Exact.integer?_eq_some_natCast (by decide)).mp above
  have found : Key.ofNumber? x = some (.index Key.maxIndex) := by
    simp only [Key.ofNumber?, natural, nonneg, true_and, Nat.le_refl, if_true]
    rfl
  have shown := Exact.display_of_natural natural nonneg (by decide)
  constructor
  · simp only [keyOf, found]
  · rw [display_number, displayNumber, shown]

/-- The key of a computed member is that of the display text, with exactly one exception. -/
theorem keyOf_eq_iff (heap : Heap) (value : Value) :
    heap.keyOf value = Key.ofText <$> heap.display value ↔ ¬value.IsAboveIndices := by
  cases value with
  | number x =>
      constructor
      · intro agree above
        obtain ⟨short, long⟩ := heap.keyOf_of_isAboveIndices above
        rw [short, long, map_pure, Key.ofText_naturalText_of_lt (Nat.lt_succ_self _)] at agree
        cases congrArg (fun computation => (computation.run #[]).1) agree
      · intro within
        cases found : Key.ofNumber? x with
        | none => simp only [keyOf, found, display_number, map_pure]
        | some key =>
            rcases Key.ofNumber?_eq_some found with ⟨n, small, shown, rfl⟩ | ⟨above, _⟩
            · have text : displayNumber x = (Key.index n).text := congrArg String.ofList shown
              simp only [keyOf, found, display_number, map_pure, text, Key.ofText_text_index small]
            · exact absurd above within
  | _ => exact iff_of_true rfl id

end Heap

namespace Expr

/-- A number in brackets addresses what its text in brackets addresses. -/
theorem keyOf_number_eq_text (heap : Heap) {x : Float} (within : ¬(Value.number x).IsAboveIndices) :
    heap.keyOf (.number x) = heap.keyOf (.text (displayNumber x)) := by
  rw [(heap.keyOf_eq_iff (.number x)).mpr within, (heap.keyOf_eq_iff (.text _)).mpr id,
    heap.display_number, heap.display_text]

variable {σ : Type} (call : Caller σ) (scope : Scope) (bindings : Bindings)

theorem evalWith_index_number (holder : Expr) {x : Float} (within : ¬(Value.number x).IsAboveIndices) :
    evalWith call scope bindings (.index holder (.literal (.number x))) =
      evalWith call scope bindings (.index holder (.literal (.string (displayNumber x)))) := by
  simp only [evalWith, literalValue, pure_bind, keyOf_number_eq_text _ within]

theorem evalWith_call_index_number (holder : Expr) (args : List Expr) {x : Float}
    (within : ¬(Value.number x).IsAboveIndices) :
    evalWith call scope bindings (.call (.index holder (.literal (.number x))) args) =
      evalWith call scope bindings
        (.call (.index holder (.literal (.string (displayNumber x)))) args) := by
  simp only [evalWith, literalValue, pure_bind, keyOf_number_eq_text _ within]

theorem evalPlace_index_number (holder : Expr) {x : Float}
    (within : ¬(Value.number x).IsAboveIndices) :
    evalPlace call scope bindings (.index holder (.literal (.number x))) =
      evalPlace call scope bindings (.index holder (.literal (.string (displayNumber x)))) := by
  simp only [evalPlace, evalWith, literalValue, pure_bind, keyOf_number_eq_text _ within]

/-- The key of a computed member is the one of the value's display text unless the value is the
number right above the greatest index, and then it is not.  A number in brackets other than that
reads, calls and writes what its display text in brackets does. -/
theorem computed_keys_agree_iff (heap : Heap) (value : Value) (call : Caller σ) (scope : Scope)
    (bindings : Bindings) (holder : Expr) :
    (heap.keyOf value = Key.ofText <$> heap.display value ↔ ¬value.IsAboveIndices) ∧
    ∀ x : Float, ¬(Value.number x).IsAboveIndices →
      evalWith call scope bindings (.index holder (.literal (.number x))) =
        evalWith call scope bindings (.index holder (.literal (.string (displayNumber x)))) ∧
      (∀ args, evalWith call scope bindings (.call (.index holder (.literal (.number x))) args) =
        evalWith call scope bindings
          (.call (.index holder (.literal (.string (displayNumber x)))) args)) ∧
      evalPlace call scope bindings (.index holder (.literal (.number x))) =
        evalPlace call scope bindings (.index holder (.literal (.string (displayNumber x)))) :=
  ⟨heap.keyOf_eq_iff value, fun _ within => ⟨evalWith_index_number call scope bindings holder within,
    fun args => evalWith_call_index_number call scope bindings holder args within,
    evalPlace_index_number call scope bindings holder within⟩⟩

/-- The zero below zero addresses what its text addresses, the first item. -/
theorem negative_zero_agrees :
    ¬(Value.number (-0)).IsAboveIndices ∧ displayNumber (-0) = "0" ∧
      Heap.empty.keyOf (.number (-0)) = Key.ofText <$> Heap.empty.display (.number (-0)) ∧
      (evalPlace (fun _ _ => pure .undefined) ⟨⟨0⟩, none⟩ .empty
          (.index (.ident "list") (.literal (.number (-0)))) : TaskM Unit Place) =
        evalPlace (fun _ _ => pure .undefined) ⟨⟨0⟩, none⟩ .empty
          (.index (.ident "list") (.literal (.string "0"))) := by
  have within : ¬(Value.number (-0)).IsAboveIndices := by
    change (Exact.ofFloat (-0)).integer? ≠ _
    decide +kernel
  have text : displayNumber (-0) = "0" := by decide +kernel
  let call : Caller Unit := fun _ _ => pure .undefined
  obtain ⟨agree, places⟩ := computed_keys_agree_iff .empty (.number (-0)) call ⟨⟨0⟩, none⟩ .empty
    (.ident "list")
  obtain ⟨_, _, place⟩ := places (-0) within
  rw [text] at place
  exact ⟨within, text, agree.mpr within, place⟩

/-- Two to the power of sixty-four counts as the greatest index, but its text is a name. -/
theorem above_indices_disagrees :
    let x := Float.ofBits 0x43f0000000000000
    let heap := Heap.empty
    heap.keyOf (.number x) = pure (.index 18446744073709551615) ∧
      heap.display (.number x) = pure "18446744073709551616" ∧
      Key.ofText "18446744073709551616" = .name "18446744073709551616" ∧
      heap.keyOf (.number x) ≠ Key.ofText <$> heap.display (.number x) := by
  intro x heap
  have above : (Value.number x).IsAboveIndices := by
    change (Exact.ofFloat x).integer? = _
    decide +kernel
  obtain ⟨short, long⟩ := heap.keyOf_of_isAboveIndices above
  refine ⟨short, long, by decide +kernel, fun agree => (heap.keyOf_eq_iff _).mp agree above⟩

end Expr

end LiveMarkup
