import LiveMarkup.Expr.Operator
import LiveMarkup.Proofs.Heap.Display
import LiveMarkup.Proofs.Heap.Renaming

/-!
# Reads in renamed heaps

A computation that only reads yields in the second of two heaps the counterpart of what it yields in
the first, if everything that it reads in the first corresponds.  There is one lemma for each way of
reading: coercions, comparisons and operators are built from reads of properties, lengths and items.
-/

namespace LiveMarkup

/-- Whether the second computation yields the counterpart of what the first yields, provided that
all reads of the first are among the given ones; reads are never taken back. -/
structure Watch.Mirrors {α β : Type} (reads : Access → Prop) (rename : α → β) (first : Watch α)
    (second : Watch β) : Prop where
  /-- Earlier reads stay. -/
  grows : ∀ (before : Array Access), ∀ access ∈ before, access ∈ (first.run before).2
  /-- The results correspond. -/
  result : ∀ before other : Array Access, (∀ access ∈ (first.run before).2, reads access) →
    (second.run other).1 = rename (first.run before).1

namespace Watch.Mirrors

variable {reads : Access → Prop} {α β γ δ : Type}

theorem pure {rename : α → β} {a : α} {b : β} (same : b = rename a) :
    Watch.Mirrors reads rename (Pure.pure a) (Pure.pure b) where
  grows _ _ member := member
  result _ _ _ := same

theorem bind {rename : α → β} {renameNext : γ → δ} {first : Watch α} {second : Watch β}
    {next : α → Watch γ} {nextSecond : β → Watch δ} (mirrors : Watch.Mirrors reads rename first second)
    (later : ∀ a, Watch.Mirrors reads renameNext (next a) (nextSecond (rename a))) :
    Watch.Mirrors reads renameNext (first >>= next) (second >>= nextSecond) where
  grows before access member := (later _).grows _ access (mirrors.grows before access member)
  result before other all := by
    have earlier : ∀ access ∈ (first.run before).2, reads access :=
      fun access member => all access ((later _).grows _ access member)
    have here := mirrors.result before other earlier
    have there := (later (first.run before).1).result (first.run before).2 (second.run other).2 all
    rw [← here] at there
    exact there

theorem mapM (rename : α → β) (renameNext : γ → δ) {next : α → Watch γ} {nextSecond : β → Watch δ}
    (list : List α)
    (each : ∀ a ∈ list, Watch.Mirrors reads renameNext (next a) (nextSecond (rename a))) :
    Watch.Mirrors reads (List.map renameNext) (list.mapM next) ((list.map rename).mapM nextSecond) := by
  induction list with
  | nil => exact pure rfl
  | cons a rest ih =>
      rw [List.map_cons, List.mapM_cons, List.mapM_cons]
      refine (each a List.mem_cons_self).bind fun c => ?_
      exact (ih fun other member => each other (List.mem_cons_of_mem a member)).bind
        fun _ => pure rfl

end Watch.Mirrors

namespace Heap.Mirrors

variable {ρ : Renaming} {reads probes : Access → Prop} {first second : Heap}
  (mirrors : first.Mirrors ρ reads probes second)

include mirrors

theorem get (id : ContainerId) (key : Key) :
    Watch.Mirrors reads ρ.value (first.get id key) (second.get (ρ.container id) key) where
  grows _ _ member := Array.mem_push_of_mem _ member
  result _ _ all := (mirrors.read ⟨id, key⟩ (all _ Array.mem_push_self)).value

theorem length {id : ContainerId} (isArray : first.isArray id = true) :
    Watch.Mirrors reads (fun count => count) (first.length id) (second.length (ρ.container id)) where
  grows _ _ member := Array.mem_push_of_mem _ member
  result _ _ all := (mirrors.read ⟨id, .length⟩ (all _ Array.mem_push_self)).count isArray rfl

theorem items {id : ContainerId} (isArray : first.isArray id = true) :
    Watch.Mirrors reads (List.map ρ.value) (first.items id) (second.items (ρ.container id)) := by
  have kind := (mirrors.kind id).trans isArray
  unfold Heap.items
  cases holds : first.contents id with
  | object properties =>
      rw [Heap.isArray, holds] at isArray
      contradiction
  | array items named =>
      cases holdsToo : second.contents (ρ.container id) with
      | object properties =>
          rw [Heap.isArray, holdsToo] at kind
          contradiction
      | array otherItems otherNamed =>
          refine (mirrors.length isArray).bind fun count => ?_
          have all := Watch.Mirrors.mapM (fun position => position) ρ.value (List.range count)
            fun position _ => mirrors.get id (.index position)
          rw [List.map_id'] at all
          exact all

theorem joinWith {path : List ContainerId} {id : ContainerId}
    {itemText otherText : List ContainerId → Value → Watch String}
    (isArray : first.isArray id = true) (separator : String)
    (each : ∀ item, Watch.Mirrors reads (fun text => text) (itemText (id :: path) item)
      (otherText ((id :: path).map ρ.container) (ρ.value item))) :
    Watch.Mirrors reads (fun text => text) (first.joinWith itemText separator path id)
      (second.joinWith otherText separator (path.map ρ.container) (ρ.container id)) := by
  have onPath : ρ.container id ∈ path.map ρ.container ↔ id ∈ path := by
    rw [List.mem_map]
    constructor
    · rintro ⟨other, member, same⟩
      rw [← ρ.container_injective same]
      exact member
    · exact fun member => ⟨id, member, rfl⟩
  unfold Heap.joinWith
  by_cases member : id ∈ path
  · rw [if_pos member, if_pos (onPath.mpr member)]
    exact .pure rfl
  · rw [if_neg member, if_neg fun there => member (onPath.mp there)]
    refine (mirrors.items isArray).bind fun items => ?_
    refine (Watch.Mirrors.mapM ρ.value (fun text => text) items fun item _ => ?_).bind fun parts => ?_
    · rw [ρ.isNullish_value]
      split
      · exact .pure rfl
      · exact each item
    · rw [List.map_id']
      exact .pure rfl

theorem displayWithin (depth : Nat) (path : List ContainerId) (value : Value) :
    Watch.Mirrors reads (fun text => text) (first.displayWithin depth path value)
      (second.displayWithin depth (path.map ρ.container) (ρ.value value)) := by
  induction depth generalizing path value with
  | zero =>
      cases value with
      | container id =>
          simp only [Renaming.value, Heap.displayWithin, mirrors.kind]
          split
          · exact .pure rfl
          · exact .pure rfl
      | event id =>
          simp only [Renaming.value, Heap.displayWithin, mirrors.event]
          exact .pure rfl
      | _ => exact .pure rfl
  | succ depth ih =>
      cases value with
      | container id =>
          simp only [Renaming.value, Heap.displayWithin, mirrors.kind]
          split
          next isArray => exact mirrors.joinWith isArray "," fun item => ih (id :: path) item
          · exact .pure rfl
      | event id =>
          simp only [Renaming.value, Heap.displayWithin, mirrors.event]
          exact .pure rfl
      | _ => exact .pure rfl

/-- The display texts of counterparts are the same. -/
theorem display (value : Value) :
    Watch.Mirrors reads (fun text => text) (first.display value) (second.display (ρ.value value)) := by
  let depth := max first.containers.size second.containers.size
  rw [display_eq (Nat.le_max_left _ _ : first.containers.size ≤ depth),
    display_eq (Nat.le_max_right _ _ : second.containers.size ≤ depth)]
  exact mirrors.displayWithin depth [] value

theorem join {id : ContainerId} (isArray : first.isArray id = true) (separator : String) :
    Watch.Mirrors reads (fun text => text) (first.join separator id)
      (second.join separator (ρ.container id)) := by
  let depth := max first.containers.size second.containers.size
  rw [join_eq (Nat.le_max_left _ _ : first.containers.size ≤ depth) separator isArray,
    join_eq (Nat.le_max_right _ _ : second.containers.size ≤ depth) separator
      ((mirrors.kind id).trans isArray)]
  exact mirrors.joinWith isArray separator fun item => mirrors.displayWithin depth [id] item

theorem shownText (value : Value) :
    Watch.Mirrors reads (fun text => text) (first.shownText value)
      (second.shownText (ρ.value value)) := by
  cases value with
  | null => exact .pure rfl
  | _ => exact mirrors.display _

theorem keyOf (value : Value) :
    Watch.Mirrors reads (fun key => key) (first.keyOf value) (second.keyOf (ρ.value value)) := by
  cases value with
  | number x =>
      simp only [Renaming.value, Heap.keyOf]
      split
      · exact .pure rfl
      · exact .pure rfl
  | _ => exact (mirrors.display _).bind fun _ => .pure rfl

theorem toNumber (value : Value) :
    Watch.Mirrors reads (fun x => x) (first.toNumber value) (second.toNumber (ρ.value value)) := by
  cases value with
  | container id =>
      simp only [Renaming.value, Heap.toNumber, mirrors.kind]
      split
      · exact (mirrors.display (.container id)).bind fun _ => .pure rfl
      · exact .pure rfl
  | _ => exact .pure rfl

theorem looseEquals (left right : Value) :
    Watch.Mirrors reads (fun equal => equal) (first.looseEquals left right)
      (second.looseEquals (ρ.value left) (ρ.value right)) := by
  have shown (id : ContainerId) := mirrors.display (.container id)
  simp only [Heap.looseEquals, ρ.isNullish_value, ρ.withoutBool_value]
  split
  · exact .pure rfl
  · generalize Heap.withoutBool left = left, Heap.withoutBool right = right
    have plain : Watch.Mirrors reads (fun equal => equal)
        (Pure.pure (Heap.plainEquals left right))
        (Pure.pure (Heap.plainEquals (ρ.value left) (ρ.value right))) :=
      .pure (ρ.plainEquals_value left right)
    cases left with
    | container id =>
        cases right with
        | text other => exact (shown id).bind fun _ => .pure rfl
        | number other => exact (shown id).bind fun _ => .pure rfl
        | _ => exact plain
    | text value =>
        cases right with
        | container id => exact (shown id).bind fun _ => .pure rfl
        | _ => exact plain
    | number value =>
        cases right with
        | container id => exact (shown id).bind fun _ => .pure rfl
        | _ => exact plain
    | _ => cases right <;> exact plain

/-! ## Operators -/

theorem arithmetic (op : Float → Float → Float) (left right : Value) :
    Watch.Mirrors reads ρ.value (first.arithmetic op left right)
      (second.arithmetic op (ρ.value left) (ρ.value right)) :=
  (mirrors.toNumber left).bind fun _ => (mirrors.toNumber right).bind fun _ => .pure rfl

theorem add (left right : Value) :
    Watch.Mirrors reads ρ.value (first.add left right)
      (second.add (ρ.value left) (ρ.value right)) := by
  have concatenates (value : Value) :
      Heap.concatenates (ρ.value value) = Heap.concatenates value := by
    cases value <;> rfl
  simp only [Heap.add, concatenates]
  split
  · exact (mirrors.display left).bind fun _ => (mirrors.display right).bind fun _ => .pure rfl
  · exact mirrors.arithmetic (· + ·) left right

theorem compareBy (texts : String → String → Bool) (numbers : Float → Float → Bool)
    (left right : Value) :
    Watch.Mirrors reads ρ.value (first.compareBy texts numbers left right)
      (second.compareBy texts numbers (ρ.value left) (ρ.value right)) := by
  have asNumbers : Watch.Mirrors reads ρ.value
      (do return .bool (numbers (← first.toNumber left) (← first.toNumber right)))
      (do return .bool (numbers (← second.toNumber (ρ.value left))
        (← second.toNumber (ρ.value right)))) :=
    (mirrors.toNumber left).bind fun _ => (mirrors.toNumber right).bind fun _ => .pure rfl
  cases left with
  | text value =>
      cases right with
      | text other => exact .pure rfl
      | _ => exact asNumbers
  | _ => cases right <;> exact asNumbers

theorem binary (op : BinaryOp) (left right : Value) :
    Watch.Mirrors reads ρ.value (first.binary op left right)
      (second.binary op (ρ.value left) (ρ.value right)) := by
  cases op with
  | add => exact mirrors.add left right
  | sub => exact mirrors.arithmetic _ left right
  | mul => exact mirrors.arithmetic _ left right
  | div => exact mirrors.arithmetic _ left right
  | rem => exact mirrors.arithmetic _ left right
  | less => exact mirrors.compareBy _ _ left right
  | lessEqual => exact mirrors.compareBy _ _ left right
  | greater => exact mirrors.compareBy _ _ left right
  | greaterEqual => exact mirrors.compareBy _ _ left right
  | equal => exact (mirrors.looseEquals left right).bind fun _ => .pure rfl
  | notEqual => exact (mirrors.looseEquals left right).bind fun _ => .pure rfl
  | strictEqual => exact .pure (congrArg Value.bool (ρ.strictEquals_value left right))
  | strictNotEqual =>
      exact .pure (congrArg (fun equal => Value.bool !equal) (ρ.strictEquals_value left right))

theorem unary (op : UnaryOp) (value : Value) :
    Watch.Mirrors reads ρ.value (first.unary op value) (second.unary op (ρ.value value)) := by
  cases op with
  | not => exact .pure (congrArg (fun truthy => Value.bool !truthy) (ρ.isTruthy_value value))
  | neg => exact (mirrors.toNumber value).bind fun _ => .pure rfl
  | plus => exact (mirrors.toNumber value).bind fun _ => .pure rfl

end Heap.Mirrors

end LiveMarkup
