import LiveMarkup.Expr.Evaluation
import LiveMarkup.Proofs.Reactive.Confined

/-!
# Plain expressions

An expression without assignments, updates, calls and functions changes nothing.  Its evaluation
yields a value or a fault, reads nothing but what the data and the bindings lead to, and makes
containers that hold nothing else.
-/

namespace LiveMarkup

namespace Expr

mutual

/-- Whether an expression has no assignment, no update, no call and no function in it. -/
def isPlain : Expr → Bool
  | .literal _ | .ident _ => true
  | .array items => areAllPlain items
  | .object entries => areEntriesPlain entries
  | .member holder _ => isPlain holder
  | .index holder position => isPlain holder && isPlain position
  | .unary _ operand => isPlain operand
  | .binary _ left right => isPlain left && isPlain right
  | .logical _ left right => isPlain left && isPlain right
  | .conditional test consequent alternate =>
      isPlain test && isPlain consequent && isPlain alternate
  | .sequence statements => areAllPlain statements
  | .call _ _ | .assign _ _ _ | .update _ _ _ | .arrow _ _ => false

/-- Whether all expressions of a list are plain. -/
def areAllPlain : List Expr → Bool
  | [] => true
  | item :: rest => isPlain item && areAllPlain rest

/-- Whether the properties of an object are plain. -/
def areEntriesPlain : List (String × Expr) → Bool
  | [] => true
  | (_, item) :: rest => isPlain item && areEntriesPlain rest

end

variable {σ : Type} {reach : Reach}

theorem holds_literal (heap : Heap) (value : Literal) : reach.Holds heap (literalValue value) := by
  intro id same
  cases value with
  | _ => contradiction

/-- A property of a value inside lies inside. -/
theorem getProperty_confined {data : Option ContainerId} {floor : Heap} {base : Value}
    (holds : reach.Holds floor base) (key : Key) :
    TaskM.Confined (σ := σ) reach data floor reach.Holds (base.getProperty key) := by
  cases base with
  | undefined => exact .fail _
  | null => exact .fail _
  | container id =>
      exact .watch fun heap grows calm =>
        Heap.get_stays calm.encloses (Reach.inside_mono grows (holds id rfl)) key
  | text content =>
      refine .pure fun heap _ id same => ?_
      simp only [Value.textProperty] at same
      repeat' split at same
      all_goals contradiction
  | event event =>
      simp only [Value.getProperty]
      refine .look fun heap _ => ?_
      intro id same
      simp only [Event.property] at same
      repeat' split at same
      all_goals contradiction
  | function function =>
      simp only [Value.getProperty]
      split
      · refine .look fun heap _ => ?_
        exact fun id same => nomatch same
      · exact .pure fun heap _ id same => (nomatch same)
  | bool value => exact .pure fun heap _ id same => (nomatch same)
  | number value => exact .pure fun heap _ id same => (nomatch same)

section Evaluation

variable {data : ContainerId} (held : reach.held data)

include held

/-- A name is looked for in the bindings and then in the data, where it is read in any case. -/
theorem lookup_confined {floor : Heap} {bindings : Bindings}
    (bound : ∀ entry ∈ bindings.entries, reach.Holds floor entry.2) (name : String) :
    TaskM.Confined (σ := σ) reach (some data) floor reach.Holds
      (lookup ⟨reach.tracker, some data⟩ bindings name) := by
  unfold lookup
  cases found : bindings.get? name with
  | some value =>
      exact .pure fun heap grows => Reach.Holds.mono (bound _ (Assoc.mem_of_lookup found)) grows
  | none =>
      intro store grows calm
      let key := Key.ofText name
      have read := TaskM.Yields.watch (σ := σ) (fun heap => heap.get data key) store
      have heap : (store.track #[⟨data, key⟩]).heap = store.heap := Store.heap_track _ _
      obtain ⟨result, ends, good⟩ : ∃ result,
          TaskM.Yields (σ := σ) (if store.heap.contains data key then pure (store.heap.peek data key)
            else Value.evalFail (.undefinedIdentifier name)) (store.track #[⟨data, key⟩]) result
            (store.track #[⟨data, key⟩]) .empty ∧
          ∀ value, result = .ok value → value = store.heap.peek data key := by
        split
        · exact ⟨_, .pure _ _, fun value same => (Except.ok.inj same).symm⟩
        · exact ⟨_, .fail _ _, fun value same => nomatch same⟩
      refine ⟨_, _, _, (TaskM.Yields.has data key store).bind (read.bind ends), heap ▸ calm,
        fun value same => ?_, ⟨fun access member => ?_, fun access member => ?_, rfl⟩, ?_, ?_⟩
      · rw [good value same, heap]
        exact calm.encloses.peek (.inl held) key
      · rw [List.mem_singleton.mp member]
        exact .inl held
      · rw [List.mem_singleton.mp member]
        exact ⟨List.mem_singleton.mpr rfl, rfl⟩
      · rw [heap]
      · rw [heap]

set_option linter.unusedSectionVars false in
mutual

theorem evalWith_confined (call : Caller σ) {bindings : Bindings} : (expr : Expr) →
    expr.isPlain = true → {floor : Heap} →
    (∀ entry ∈ bindings.entries, reach.Holds floor entry.2) →
    TaskM.Confined reach (some data) floor reach.Holds
      (evalWith call ⟨reach.tracker, some data⟩ bindings expr)
  | .literal value, _, _, _ => .pure fun heap _ => holds_literal heap value
  | .ident name, _, _, bound => lookup_confined held bound name
  | .array items, plain, _, bound => (evalItems_confined call items plain bound).bind
      fun values heap _ holds => .array values holds
  | .object entries, plain, _, bound => (evalEntries_confined call entries plain bound).bind
      fun properties heap _ holds => .object properties holds
  | .member holder property, plain, _, bound => (evalWith_confined call holder plain bound).bind
      fun base heap _ holds => getProperty_confined holds (Key.ofText property)
  | .index holder position, plain, floor, bound => by
      obtain ⟨plainHolder, plainPosition⟩ := Bool.and_eq_true_iff.mp plain
      refine (evalWith_confined call holder plainHolder bound).bind fun base heap grows holds => ?_
      have later : ∀ entry ∈ bindings.entries, reach.Holds heap entry.2 :=
        fun entry member => Reach.Holds.mono (bound entry member) grows
      refine (evalWith_confined call position plainPosition later).bind
        fun place heap grows holdsPlace => ?_
      refine TaskM.Confined.bind (.watch fun heap grows calm =>
        Heap.keyOf_stays calm.encloses (Reach.Holds.mono holdsPlace grows)) fun key heap grown _ => ?_
      exact getProperty_confined (Reach.Holds.mono holds (grows.trans grown)) key
  | .call _ _, plain, _, _ | .assign _ _ _, plain, _, _ | .update _ _ _, plain, _, _
  | .arrow _ _, plain, _, _ => nomatch plain
  | .unary op operand, plain, _, bound => (evalWith_confined call operand plain bound).bind
      fun value heap _ holds => .watch fun heap grows calm =>
        (Heap.unary_stays calm.encloses op (Reach.Holds.mono holds grows)).imp
          fun _ plain => plain.inside
  | .binary op left right, plain, floor, bound => by
      obtain ⟨plainLeft, plainRight⟩ := Bool.and_eq_true_iff.mp plain
      refine (evalWith_confined call left plainLeft bound).bind fun first heap grows holds => ?_
      have later : ∀ entry ∈ bindings.entries, reach.Holds heap entry.2 :=
        fun entry member => Reach.Holds.mono (bound entry member) grows
      refine (evalWith_confined call right plainRight later).bind
        fun second heap grows holdsSecond => ?_
      exact .watch fun heap grown calm => (Heap.binary_stays calm.encloses op
        (Reach.Holds.mono holds (grows.trans grown)) (Reach.Holds.mono holdsSecond grown)).imp
          fun _ plain => plain.inside
  | .logical op left right, plain, floor, bound => by
      obtain ⟨plainLeft, plainRight⟩ := Bool.and_eq_true_iff.mp plain
      refine (evalWith_confined call left plainLeft bound).bind fun first heap grows holds => ?_
      have later : ∀ entry ∈ bindings.entries, reach.Holds heap entry.2 :=
        fun entry member => Reach.Holds.mono (bound entry member) grows
      have kept : TaskM.Confined (σ := σ) reach (some data) heap reach.Holds (pure first) :=
        .pure fun heap grows => Reach.Holds.mono holds grows
      cases op with
      | and =>
          cases first.isTruthy with
          | false => exact kept
          | true => exact evalWith_confined call right plainRight later
      | or =>
          cases first.isTruthy with
          | false => exact evalWith_confined call right plainRight later
          | true => exact kept
  | .conditional test consequent alternate, plain, floor, bound => by
      obtain ⟨plainTest, plainAlternate⟩ := Bool.and_eq_true_iff.mp plain
      obtain ⟨plainTest, plainConsequent⟩ := Bool.and_eq_true_iff.mp plainTest
      refine (evalWith_confined call test plainTest bound).bind fun value heap grows _ => ?_
      have later : ∀ entry ∈ bindings.entries, reach.Holds heap entry.2 :=
        fun entry member => Reach.Holds.mono (bound entry member) grows
      split
      · exact evalWith_confined call consequent plainConsequent later
      · exact evalWith_confined call alternate plainAlternate later
  | .sequence statements, plain, _, bound => by
      refine (evalItems_confined call statements plain bound).bind
        fun values heap _ holds => .pure fun later grows => ?_
      cases last : values.getLast? with
      | none => exact fun id same => nomatch same
      | some value =>
          exact Reach.Holds.mono (holds value (List.mem_of_getLast? last)) grows

theorem evalItems_confined (call : Caller σ) {bindings : Bindings} : (items : List Expr) →
    areAllPlain items = true → {floor : Heap} →
    (∀ entry ∈ bindings.entries, reach.Holds floor entry.2) →
    TaskM.Confined reach (some data) floor
      (fun heap values => ∀ value ∈ values, reach.Holds heap value)
      (evalItems call ⟨reach.tracker, some data⟩ bindings items)
  | [], _, _, _ => .pure fun _ _ _ member => nomatch member
  | item :: rest, plain, floor, bound => by
      obtain ⟨plainItem, plainRest⟩ := Bool.and_eq_true_iff.mp plain
      refine (evalWith_confined call item plainItem bound).bind fun value heap grows holds => ?_
      have later : ∀ entry ∈ bindings.entries, reach.Holds heap entry.2 :=
        fun entry member => Reach.Holds.mono (bound entry member) grows
      refine (evalItems_confined call rest plainRest later).bind fun values heap grown all => ?_
      refine .pure fun heap more other member => ?_
      rcases List.mem_cons.mp member with rfl | listed
      · exact Reach.Holds.mono holds (grown.trans more)
      · exact Reach.Holds.mono (all other listed) more

theorem evalEntries_confined (call : Caller σ) {bindings : Bindings} :
    (entries : List (String × Expr)) → areEntriesPlain entries = true → {floor : Heap} →
    (∀ entry ∈ bindings.entries, reach.Holds floor entry.2) →
    TaskM.Confined reach (some data) floor
      (fun heap (properties : List (Key × Value)) => ∀ entry ∈ properties, reach.Holds heap entry.2)
      (evalEntries call ⟨reach.tracker, some data⟩ bindings entries)
  | [], _, _, _ => .pure fun _ _ _ member => nomatch member
  | (name, item) :: rest, plain, floor, bound => by
      obtain ⟨plainItem, plainRest⟩ := Bool.and_eq_true_iff.mp plain
      refine (evalWith_confined call item plainItem bound).bind fun value heap grows holds => ?_
      have later : ∀ entry ∈ bindings.entries, reach.Holds heap entry.2 :=
        fun entry member => Reach.Holds.mono (bound entry member) grows
      refine (evalEntries_confined call rest plainRest later).bind fun values heap grown all => ?_
      refine .pure fun heap more other member => ?_
      rcases List.mem_cons.mp member with rfl | listed
      · exact Reach.Holds.mono holds (grown.trans more)
      · exact Reach.Holds.mono (all other listed) more

end

/-- A plain expression yields a value or a fault, and gets no further than its reach. -/
theorem eval_confined {bindings : Bindings} {expr : Expr} (plain : expr.isPlain = true) {floor : Heap}
    (bound : ∀ entry ∈ bindings.entries, reach.Holds floor entry.2) :
    TaskM.Confined (σ := σ) reach (some data) floor reach.Holds
      (eval ⟨reach.tracker, some data⟩ bindings expr) :=
  evalWith_confined held _ expr plain bound

end Evaluation

end Expr

end LiveMarkup
