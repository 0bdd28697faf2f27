import LiveMarkup.Proofs.Reactive.Storing
import LiveMarkup.Expr.Evaluation

/-!
# Appending to a list

The method `push` stores its arguments one after another, each by a write of its own.  An array takes
items below the greatest length only, so a row of arguments that reaches this length on its way is
stored in part: those before it stay in the list, and the call fails with the first one behind it.
-/

namespace LiveMarkup

namespace World

variable {σ : Type} {bound : Nat} {world : World σ} {list : ContainerId} {items : Array Value}
  {named : Assoc Key Value} {value : Value}

/-- A value is appended below the greatest length if all readers of the list are running. -/
theorem append_ends (contents : world.store.heap.contents list = .array items named)
    (engaged : world.store.Engaged (· = list)) (room : items.size < maxArrayLength) :
    ∃ taken after,
      (Value.writeContainer list (.index items.size) value).Ends (runEffect bound) world (.ok ()) after ∧
      world.store.heap.Adopts list value taken ∧
      after.store.heap.contents list = .array (items.push taken) named ∧
      world.ChangesOnly list after ∧ after.store.Engaged (· = list) := by
  obtain ⟨after, tries, rested⟩ := tryWrite_ends bound engaged (.index items.size) value
  rw [Store.put_append contents, if_pos room] at tries rested
  refine ⟨_, after, tries.bind (.pure () after), .of_perform _ list value, ?_, rested.changes,
    rested.engaged⟩
  rw [rested.heap]
  exact Heap.contents_setContents (Store.known_of_perform contents) _

/-- Behind the greatest length a value is refused. -/
theorem append_refused (contents : world.store.heap.contents list = .array items named)
    (engaged : world.store.Engaged (· = list)) (full : ¬items.size < maxArrayLength) :
    ∃ after,
      (Value.writeContainer list (.index items.size) value).Ends (runEffect bound) world
        (.error (.eval (.write (.indexOutOfRange items.size maxArrayLength)))) after ∧
      after.store.heap.contents list = .array items named ∧ world.ChangesOnly list after := by
  obtain ⟨after, tries, rested⟩ := tryWrite_ends bound engaged (.index items.size) value
  rw [Store.put_append contents, if_neg full] at tries rested
  refine ⟨after, tries.bind (.ofExcept (.error _) _), ?_, rested.changes⟩
  rw [rested.heap]
  exact Store.contents_perform contents

/-- What appending some values comes to if a first one is stored before the others. -/
theorem appended_succ {position count : Nat} (room : position < maxArrayLength) :
    (if count ≤ maxArrayLength - (position + 1) then (.ok (position + 1 + count) : Except Fault Nat)
      else .error (.eval (.write
        (.indexOutOfRange (max (position + 1) maxArrayLength) maxArrayLength)))) =
    if count + 1 ≤ maxArrayLength - position then .ok (position + (count + 1))
      else .error (.eval (.write (.indexOutOfRange (max position maxArrayLength) maxArrayLength))) := by
  have fits : count ≤ maxArrayLength - (position + 1) ↔ count + 1 ≤ maxArrayLength - position := by
    omega
  have reached : position + 1 + count = position + (count + 1) := by omega
  rw [Nat.max_eq_right room, Nat.max_eq_right (Nat.le_of_lt room)]
  simp only [fits, reached]

/-- The arguments of `push` are appended up to the greatest length. -/
theorem appendAll_ends (values : List Value)
    (contents : world.store.heap.contents list = .array items named)
    (engaged : world.store.Engaged (· = list)) :
    ∃ taken after,
      (Value.appendAll list items.size values).Ends (runEffect bound) world
        (if values.length ≤ maxArrayLength - items.size then .ok (items.size + values.length)
          else .error (.eval (.write (.indexOutOfRange (max items.size maxArrayLength) maxArrayLength))))
        after ∧
      taken.length = min values.length (maxArrayLength - items.size) ∧
      (∀ entry ∈ values.zip taken, world.store.heap.Adopts list entry.1 entry.2) ∧
      after.store.heap.contents list = .array (items ++ taken.toArray) named ∧
      world.ChangesOnly list after := by
  induction values generalizing world items with
  | nil =>
      refine ⟨[], world, ?_, by simp, by simp, by simpa using contents, .of_grows (.refl _), rfl, rfl⟩
      rw [List.length_nil, if_pos (Nat.zero_le _)]
      exact .pure items.size world
  | cons value rest ih =>
      rw [Value.appendAll]
      by_cases room : items.size < maxArrayLength
      · obtain ⟨taken, between, writes, adopts, contentsNow, changes, engagedNow⟩ :=
          append_ends contents engaged room
        obtain ⟨more, after, appends, length, adoptsRest, contentsAfter, changesRest⟩ :=
          ih contentsNow engagedNow
        have known := Heap.known_of_array contents
        refine ⟨taken :: more, after, writes.bind ?_, ?_, ?_, ?_, changes.trans changesRest⟩
        · rw [Array.size_push, appended_succ room] at appends
          exact appends
        · rw [Array.size_push] at length
          simp only [List.length_cons, length]
          omega
        · rw [List.zip_cons_cons, List.forall_mem_cons]
          exact ⟨adopts, fun entry listed =>
            .of_changed known changes.heap (adoptsRest entry listed)⟩
        · rw [contentsAfter]
          simp
      · obtain ⟨after, refuses, contentsNow, changes⟩ := append_refused contents engaged room
        have none : maxArrayLength - items.size = 0 := Nat.sub_eq_zero_of_le (Nat.le_of_not_lt room)
        refine ⟨[], after, ?_, by rw [none]; rfl, fun entry listed => absurd listed (by simp), ?_, changes⟩
        · rw [none, if_neg (by simp), Nat.max_eq_left (Nat.le_of_not_lt room)]
          exact refuses.bind_error
        · rw [contentsNow]
          simp

end World

namespace Heap

variable {heap : Heap} {list : ContainerId} {items : Array Value} {named : Assoc Key Value}
  (contents : heap.contents list = .array items named)

include contents

theorem contains_push_of_unnamed (unnamed : named.contains (.name "push") = false) :
    heap.contains list (.name "push") = false := by
  rw [contains, contents, Contents.contains, unnamed]
  rfl

theorem typeName_of_array : heap.typeName (.container list) = .array := by
  rw [typeName, isArray, contents]
  rfl

end Heap

namespace Expr

variable {σ : Type} {bound : Nat} {start between world : World σ} {list : ContainerId}
  {items : Array Value} {named : Assoc Key Value}

theorem ownMethod_push (list : ContainerId) (values : List Value) :
    Value.ownMethod? (σ := σ) true (.container list) "push" values =
      some (do
        let length ← TaskM.watch fun heap => heap.length list
        return .ofNat (← Value.appendAll list length values)) := rfl

/-- The method of an array that has no property of this name. -/
theorem callProperty_push (call : Caller σ) (values : List Value)
    (contents : world.store.heap.contents list = .array items named)
    (unnamed : named.contains (.name "push") = false) (engaged : world.store.Engaged (· = list)) :
    ∃ taken after,
      (callProperty call (.container list) (.name "push") values).Ends (World.runEffect bound) world
        (if values.length ≤ maxArrayLength - items.size then
            .ok (.ofNat (items.size + values.length))
          else .error (.eval (.write (.indexOutOfRange (max items.size maxArrayLength) maxArrayLength))))
        after ∧
      taken.length = min values.length (maxArrayLength - items.size) ∧
      (∀ entry ∈ values.zip taken, world.store.heap.Adopts list entry.1 entry.2) ∧
      after.store.heap.contents list = .array (items ++ taken.toArray) named ∧
      world.ChangesOnly list after := by
  have has : (TaskM.has list (.name "push")).Ends (World.runEffect bound) world (.ok false) world :=
    Heap.contains_push_of_unnamed contents unnamed ▸ fun _ => rfl
  have type : (TaskM.look fun heap => heap.typeName (.container list)).Ends (World.runEffect bound) world
      (.ok .array) world := Heap.typeName_of_array contents ▸ .look _ world
  let read := world.mapStore fun store => store.track #[⟨list, .length⟩]
  have length : (TaskM.watch fun heap => heap.length list).Ends (World.runEffect bound) world
      (.ok items.size) read := by
    have count : (world.store.heap.contents list).count = items.size := congrArg Contents.count contents
    exact count ▸ fun _ => rfl
  have same : read.store.heap = world.store.heap := Store.heap_track _ _
  have contentsNow : read.store.heap.contents list = .array items named := by
    rw [same]
    exact contents
  have engagedNow : read.store.Engaged (· = list) := engaged.track _
  obtain ⟨taken, after, appends, size, adopts, contentsAfter, changes⟩ :=
    World.appendAll_ends values contentsNow engagedNow
  refine ⟨taken, after, has.bind ?_, size, same ▸ adopts, contentsAfter,
    ⟨same ▸ changes.heap, changes.runs.trans (Store.runs_track _ _), changes.surroundings⟩⟩
  rw [if_neg Bool.false_ne_true, Value.callMethod]
  refine type.bind ?_
  rw [decide_eq_true (Eq.refl TypeName.array), ownMethod_push]
  refine length.bind ?_
  by_cases fits : values.length ≤ maxArrayLength - items.size
  · rw [if_pos fits] at appends ⊢
    exact appends.bind (.pure _ after)
  · rw [if_neg fits] at appends ⊢
    exact appends.bind_error

/-- Whether a call has appended all values to a list and given the new length, or has failed and left
the list as it was. -/
def AllOrNothing (heap : Heap) (list : ContainerId) (items : Array Value) (named : Assoc Key Value)
    (values : List Value) (result : Except Fault Value) (after : Heap) : Prop :=
  (result = .ok (.ofNat (items.size + values.length)) ∧
    ∃ taken : List Value, taken.length = values.length ∧
      (∀ entry ∈ values.zip taken, heap.Adopts list entry.1 entry.2) ∧
      after.contents list = .array (items ++ taken.toArray) named) ∨
  ((∃ fault, result = .error fault) ∧ after.contents list = .array items named)

section Push

variable {values : List Value} (call : Caller σ) (scope : Scope) (bindings : Bindings)
  {holder : Expr} {args : List Expr}
  (evaluated : (evalItems call scope bindings args).Ends (World.runEffect bound) start (.ok values)
    between)
  (held : (evalWith call scope bindings holder).Ends (World.runEffect bound) between
    (.ok (.container list)) world)
  (contents : world.store.heap.contents list = .array items named)
  (unnamed : named.contains (.name "push") = false) (engaged : world.store.Engaged (· = list))

include evaluated held contents unnamed engaged

theorem push_ends :
    ∃ taken after,
      (evalWith call scope bindings (.call (.member holder "push") args)).Ends (World.runEffect bound)
        start
        (if values.length ≤ maxArrayLength - items.size then
            .ok (.ofNat (items.size + values.length))
          else .error (.eval (.write (.indexOutOfRange (max items.size maxArrayLength) maxArrayLength))))
        after ∧
      taken.length = min values.length (maxArrayLength - items.size) ∧
      (∀ entry ∈ values.zip taken, world.store.heap.Adopts list entry.1 entry.2) ∧
      after.store.heap.contents list = .array (items ++ taken.toArray) named ∧
      world.ChangesOnly list after := by
  obtain ⟨taken, after, ends, rest⟩ :=
    callProperty_push call values contents unnamed engaged
  refine ⟨taken, after, ?_, rest⟩
  have key : Key.ofText "push" = .name "push" := rfl
  rw [evalWith]
  refine evaluated.bind (held.bind ?_)
  rw [key]
  exact ends

/-- A call of `push` on a list whose readers are all running appends its arguments in order up to the
greatest length, changes nothing else and runs nothing.  It appends all or none of them exactly if the
greatest length does not lie between the old length and the one it would lead to. -/
theorem push_all_or_nothing_iff :
    ∃ taken result after,
      (evalWith call scope bindings (.call (.member holder "push") args)).Ends (World.runEffect bound)
        start result after ∧
      result = (if values.length ≤ maxArrayLength - items.size then
          .ok (.ofNat (items.size + values.length))
        else .error (.eval (.write
          (.indexOutOfRange (max items.size maxArrayLength) maxArrayLength)))) ∧
      taken.length = min values.length (maxArrayLength - items.size) ∧
      (∀ entry ∈ values.zip taken, world.store.heap.Adopts list entry.1 entry.2) ∧
      after.store.heap.contents list = .array (items ++ taken.toArray) named ∧
      world.ChangesOnly list after ∧
      (AllOrNothing world.store.heap list items named values result after.store.heap ↔
        ¬(items.size < maxArrayLength ∧ maxArrayLength < items.size + values.length)) := by
  obtain ⟨taken, after, ends, length, adopts, contentsAfter, changes⟩ :=
    push_ends call scope bindings evaluated held contents unnamed engaged
  refine ⟨taken, _, after, ends, rfl, length, adopts, contentsAfter, changes, ?_⟩
  constructor
  · rintro (⟨all, -⟩ | ⟨-, same⟩) ⟨room, beyond⟩
    · rw [if_neg (by omega)] at all
      cases all
    · rw [contentsAfter] at same
      have none := congrArg Contents.count same
      simp only [Contents.count, Array.size_append, List.size_toArray] at none
      omega
  · intro apart
    by_cases fits : values.length ≤ maxArrayLength - items.size
    · rw [if_pos fits]
      exact .inl ⟨rfl, taken, length.trans (Nat.min_eq_left fits), adopts, contentsAfter⟩
    · rw [if_neg fits]
      refine .inr ⟨⟨_, rfl⟩, ?_⟩
      obtain rfl : taken = [] := List.length_eq_zero_iff.mp (by omega)
      rw [contentsAfter]
      simp

end Push

/-! ## Lists that are nearly full -/

/-- A world with a list in which nobody has read anything. -/
def holdingList (items : Array Value) : World Unit :=
  ⟨{ Store.new [.default] with heap := ⟨#[⟨⟨0⟩, .array items .empty⟩], #[], #[]⟩ }, (), #[]⟩

theorem engaged_holdingList (items : Array Value) : (holdingList items).store.Engaged (· = ⟨0⟩) :=
  .of_new [.default] rfl

/-- What a call of `push` on that list comes to. -/
def pushed (items : Array Value) (args : List Literal) : Except Fault Value × World Unit :=
  (holdingList items).exec (eval ⟨⟨0⟩, none⟩ ⟨[("list", .container ⟨0⟩)]⟩
    (.call (.member (.ident "list") "push") (args.map .literal)))

theorem pushed_of_ends {items : Array Value} {args : List Literal} {result : Except Fault Value}
    {after : World Unit}
    (ends : (evalWith (callFunction callDepthLimit) ⟨⟨0⟩, none⟩ ⟨[("list", .container ⟨0⟩)]⟩
      (.call (.member (.ident "list") "push") (args.map .literal))).Ends
        (World.runEffect (holdingList items).store.room) (holdingList items) result after) :
    pushed items args = (result, after) :=
  ends Task.done

theorem ends_list (items : Array Value) (bound : Nat) :
    (evalWith (callFunction callDepthLimit) ⟨⟨0⟩, none⟩ ⟨[("list", .container ⟨0⟩)]⟩
      (.ident "list")).Ends (World.runEffect bound) (holdingList items) (.ok (.container ⟨0⟩))
        (holdingList items) :=
  .pure (Value.container ⟨0⟩) _

theorem ends_literals (args : List Literal) (bound : Nat) (world : World Unit) :
    (evalItems (callFunction callDepthLimit) ⟨⟨0⟩, none⟩ ⟨[("list", .container ⟨0⟩)]⟩
      (args.map .literal)).Ends (World.runEffect bound) world (.ok (args.map literalValue)) world := by
  induction args with
  | nil => exact .pure _ world
  | cons value rest ih => exact .bind (.pure _ world) (ih.bind (.pure _ world))

/-- Two more items are appended to a short list. -/
theorem push_pair_all_or_nothing :
    AllOrNothing (holdingList #[.null]).store.heap ⟨0⟩ #[.null] .empty [.bool true, .bool false]
      (pushed #[.null] [.bool true, .bool false]).1
      (pushed #[.null] [.bool true, .bool false]).2.store.heap := by
  obtain ⟨-, result, after, ends, -, -, -, -, -, whole⟩ :=
    push_all_or_nothing_iff _ _ _ (ends_literals [.bool true, .bool false]
      (holdingList #[.null]).store.room _) (ends_list #[.null] _) rfl rfl (engaged_holdingList _)
  rw [pushed_of_ends ends]
  exact whole.mpr (by decide)

/-- Of two items that are appended to a list with room for one, the first one stays in it. -/
theorem push_pair_stores_half :
    let items := Array.replicate (maxArrayLength - 1) Value.undefined
    let result := pushed items [.bool true, .bool false]
    ¬AllOrNothing (holdingList items).store.heap ⟨0⟩ items .empty [.bool true, .bool false] result.1
      result.2.store.heap := by
  intro items
  have size : items.size = maxArrayLength - 1 := Array.size_replicate
  clear_value items
  obtain ⟨taken, after, ends, length, -, contents, -⟩ :=
    push_ends _ _ _ (ends_literals [.bool true, .bool false] (holdingList items).store.room _)
      (ends_list items _) rfl rfl (engaged_holdingList items)
  change ¬AllOrNothing (holdingList items).store.heap ⟨0⟩ items .empty [.bool true, .bool false]
    (pushed items [.bool true, .bool false]).1
    (pushed items [.bool true, .bool false]).2.store.heap
  rintro (⟨all, -⟩ | ⟨-, same⟩)
  · rw [pushed_of_ends ends, if_neg (by rw [size]; decide)] at all
    cases all
  · rw [pushed_of_ends ends] at same
    have none := congrArg Contents.count (contents.symm.trans same)
    rw [size] at length
    have one : taken.length = 1 := length
    simp only [Contents.count, Array.size_append, List.size_toArray] at none
    omega

end Expr

end LiveMarkup
