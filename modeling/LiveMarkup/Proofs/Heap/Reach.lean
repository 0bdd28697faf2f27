import LiveMarkup.Expr.Operator
import LiveMarkup.Proofs.Heap.Reads

/-!
# What reads reach

From values whose containers lie in a set, a computation that only reads gets no further than that
set, provided that the containers of the set hold nothing else.
-/

namespace LiveMarkup

/-- Whether a value is plain or refers to a container of a set. -/
def Value.In (inside : ContainerId → Prop) (value : Value) : Prop :=
  ∀ id, value = .container id → inside id

theorem Value.In.mono {inside more : ContainerId → Prop} {value : Value} (within : value.In inside)
    (all : ∀ id, inside id → more id) : value.In more :=
  fun id same => all id (within id same)

/-- Plain values refer to nothing. -/
theorem Value.in_of_plain {inside : ContainerId → Prop} {value : Value}
    (plain : ∀ id, value ≠ .container id) : value.In inside :=
  fun id same => absurd same (plain id)

/-- Whether a value refers to neither a container nor a function. -/
def Value.IsPlain : Value → Prop
  | .container _ | .function _ => False
  | .undefined | .null | .bool _ | .number _ | .text _ | .event _ => True

theorem Value.IsPlain.inside {inside : ContainerId → Prop} {value : Value} (plain : value.IsPlain) :
    value.In inside :=
  Value.in_of_plain fun id same => by
    subst same
    exact plain

theorem Value.in_container {inside : ContainerId → Prop} {id : ContainerId} :
    (Value.container id).In inside ↔ inside id :=
  ⟨fun within => within id rfl, fun member _ same => Value.container.inj same ▸ member⟩

/-- Whether the containers of a set hold nothing but containers of that set. -/
def Heap.Encloses (heap : Heap) (inside : ContainerId → Prop) : Prop :=
  ∀ id, inside id → ∀ value ∈ (heap.contents id).values, value.In inside

theorem Heap.Encloses.peek {heap : Heap} {inside : ContainerId → Prop}
    (encloses : heap.Encloses inside) {id : ContainerId} (member : inside id) (key : Key) :
    (heap.peek id key).In inside :=
  fun _ same => encloses id member _ (same ▸ Contents.mem_values_of_lookup same) _ rfl

/-- Whether a container can be reached from another one. -/
inductive Heap.Reaches (heap : Heap) (root : ContainerId) : ContainerId → Prop
  /-- The root is reached. -/
  | root : Reaches heap root root
  /-- What a container holds is reached with it. -/
  | step {id other : ContainerId} (reached : Reaches heap root id)
      (held : .container other ∈ (heap.contents id).values) : Reaches heap root other

theorem Heap.Reaches.inside {heap : Heap} {root id : ContainerId} {inside : ContainerId → Prop}
    (reaches : heap.Reaches root id) (encloses : heap.Encloses inside) (member : inside root) :
    inside id := by
  induction reaches with
  | root => exact member
  | step _ held ih => exact encloses _ ih _ held _ rfl

/-- Whether a computation that reads yields something good and reads only containers of a set. -/
structure Watch.Stays {α : Type} (inside : ContainerId → Prop) (good : α → Prop)
    (computation : Watch α) : Prop where
  /-- What it yields is good. -/
  result : ∀ before : Array Access, good (computation.run before).1
  /-- What it reads lies in the set. -/
  reads : ∀ before : Array Access, ∀ access ∈ (computation.run before).2,
    access ∈ before ∨ inside access.container

namespace Watch.Stays

variable {inside : ContainerId → Prop} {α β : Type} {good : α → Prop} {goodNext : β → Prop}

theorem pure {a : α} (holds : good a) : Watch.Stays inside good (Pure.pure a) where
  result _ := holds
  reads _ _ member := .inl member

theorem bind {first : Watch α} {next : α → Watch β} (stays : Watch.Stays inside good first)
    (later : ∀ a, good a → Watch.Stays inside goodNext (next a)) :
    Watch.Stays inside goodNext (first >>= next) where
  result before := (later _ (stays.result before)).result _
  reads before access member :=
    ((later _ (stays.result before)).reads _ access member).elim (stays.reads before access) .inr

theorem imp {better : α → Prop} {computation : Watch α} (stays : Watch.Stays inside good computation)
    (implies : ∀ a, good a → better a) : Watch.Stays inside better computation where
  result before := implies _ (stays.result before)
  reads := stays.reads

theorem mapM (goodNext : β → Prop) {next : α → Watch β} (list : List α)
    (each : ∀ a ∈ list, Watch.Stays inside goodNext (next a)) :
    Watch.Stays inside (fun results => ∀ b ∈ results, goodNext b) (list.mapM next) := by
  induction list with
  | nil => exact pure fun _ member => absurd member List.not_mem_nil
  | cons a rest ih =>
      rw [List.mapM_cons]
      refine (each a List.mem_cons_self).bind fun first holds => ?_
      refine (ih fun other member => each other (List.mem_cons_of_mem a member)).bind
        fun others all => pure fun b member => ?_
      rcases List.mem_cons.mp member with rfl | later
      · exact holds
      · exact all b later

end Watch.Stays

namespace Heap

variable {heap : Heap} {inside : ContainerId → Prop} (encloses : heap.Encloses inside)

include encloses

theorem get_stays {id : ContainerId} (member : inside id) (key : Key) :
    Watch.Stays inside (Value.In inside) (heap.get id key) where
  result _ := encloses.peek member key
  reads before access listed := by
    rcases Array.mem_push.mp listed with old | rfl
    · exact .inl old
    · exact .inr member

omit encloses in
theorem length_stays {id : ContainerId} (member : inside id) :
    Watch.Stays inside (fun _ => True) (heap.length id) where
  result _ := trivial
  reads before access listed := by
    rcases Array.mem_push.mp listed with old | rfl
    · exact .inl old
    · exact .inr member

theorem items_stays {id : ContainerId} (member : inside id) :
    Watch.Stays inside (fun items => ∀ item ∈ items, item.In inside) (heap.items id) := by
  unfold Heap.items
  cases heap.contents id with
  | object properties => exact .mapM _ _ fun key _ => get_stays encloses member key
  | array items named =>
      exact (length_stays member).bind fun length _ =>
        .mapM _ _ fun position _ => get_stays encloses member (.index position)

theorem joinWith_stays {itemText : List ContainerId → Value → Watch String}
    (each : ∀ path item, item.In inside → Watch.Stays inside (fun _ => True) (itemText path item))
    (separator : String) (path : List ContainerId) {id : ContainerId} (member : inside id) :
    Watch.Stays inside (fun _ => True) (heap.joinWith itemText separator path id) := by
  unfold Heap.joinWith
  split
  · exact .pure trivial
  · refine (items_stays encloses member).bind fun items within => ?_
    refine (Watch.Stays.mapM (fun _ => True) items fun item listed => ?_).bind
      fun _ _ => .pure trivial
    split
    · exact .pure trivial
    · exact each _ item (within item listed)

theorem displayWithin_stays (depth : Nat) (path : List ContainerId) (value : Value)
    (within : value.In inside) :
    Watch.Stays inside (fun _ => True) (heap.displayWithin depth path value) := by
  induction depth generalizing path value with
  | zero =>
      cases value with
      | container id =>
          simp only [Heap.displayWithin]
          split
          · exact .pure trivial
          · exact .pure trivial
      | _ => exact .pure trivial
  | succ depth ih =>
      cases value with
      | container id =>
          simp only [Heap.displayWithin]
          split
          · exact joinWith_stays encloses ih "," path (within id rfl)
          · exact .pure trivial
      | _ => exact .pure trivial

theorem display_stays {value : Value} (within : value.In inside) :
    Watch.Stays inside (fun _ => True) (heap.display value) :=
  displayWithin_stays encloses _ [] value within

theorem shownText_stays {value : Value} (within : value.In inside) :
    Watch.Stays inside (fun _ => True) (heap.shownText value) := by
  cases value with
  | null => exact .pure trivial
  | _ => exact display_stays encloses within

theorem keyOf_stays {value : Value} (within : value.In inside) :
    Watch.Stays inside (fun _ => True) (heap.keyOf value) := by
  cases value with
  | number x =>
      simp only [Heap.keyOf]
      split
      · exact .pure trivial
      · exact .pure trivial
  | _ => exact (display_stays encloses within).bind fun _ _ => .pure trivial

theorem toNumber_stays {value : Value} (within : value.In inside) :
    Watch.Stays inside (fun _ => True) (heap.toNumber value) := by
  cases value with
  | container id =>
      simp only [Heap.toNumber]
      split
      · exact (display_stays encloses within).bind fun _ _ => .pure trivial
      · exact .pure trivial
  | _ => exact .pure trivial

theorem looseEquals_stays {left right : Value} (here : left.In inside) (there : right.In inside) :
    Watch.Stays inside (fun _ => True) (heap.looseEquals left right) := by
  have converted {value : Value} (within : value.In inside) : (withoutBool value).In inside := by
    cases value with
    | bool value => exact fun _ same => by contradiction
    | _ => exact within
  have here := converted here
  have there := converted there
  unfold Heap.looseEquals
  split
  · exact .pure trivial
  · generalize withoutBool left = left at here
    generalize withoutBool right = right at there
    cases left with
    | container id =>
        cases right with
        | text other => exact (display_stays encloses here).bind fun _ _ => .pure trivial
        | number other => exact (display_stays encloses here).bind fun _ _ => .pure trivial
        | _ => exact .pure trivial
    | text value =>
        cases right with
        | container id => exact (display_stays encloses there).bind fun _ _ => .pure trivial
        | _ => exact .pure trivial
    | number value =>
        cases right with
        | container id => exact (display_stays encloses there).bind fun _ _ => .pure trivial
        | _ => exact .pure trivial
    | _ => cases right <;> exact .pure trivial

/-! ## Operators

What operators compute is plain. -/

theorem arithmetic_stays (op : Float → Float → Float) {left right : Value} (here : left.In inside)
    (there : right.In inside) :
    Watch.Stays inside Value.IsPlain (heap.arithmetic op left right) :=
  (toNumber_stays encloses here).bind fun _ _ => (toNumber_stays encloses there).bind
    fun _ _ => .pure trivial

theorem add_stays {left right : Value} (here : left.In inside) (there : right.In inside) :
    Watch.Stays inside Value.IsPlain (heap.add left right) := by
  unfold Heap.add
  split
  · exact (display_stays encloses here).bind fun _ _ => (display_stays encloses there).bind
      fun _ _ => .pure trivial
  · exact arithmetic_stays encloses (· + ·) here there

theorem compareBy_stays (texts : String → String → Bool) (numbers : Float → Float → Bool)
    {left right : Value} (here : left.In inside) (there : right.In inside) :
    Watch.Stays inside Value.IsPlain (heap.compareBy texts numbers left right) := by
  have asNumbers : Watch.Stays inside Value.IsPlain
      (do return .bool (numbers (← heap.toNumber left) (← heap.toNumber right))) :=
    (toNumber_stays encloses here).bind fun _ _ => (toNumber_stays encloses there).bind
      fun _ _ => .pure trivial
  cases left with
  | text value =>
      cases right with
      | text other => exact .pure trivial
      | _ => exact asNumbers
  | _ => cases right <;> exact asNumbers

theorem binary_stays (op : BinaryOp) {left right : Value} (here : left.In inside)
    (there : right.In inside) :
    Watch.Stays inside Value.IsPlain (heap.binary op left right) := by
  have compared (negate : Bool → Bool) : Watch.Stays inside Value.IsPlain
      (do return .bool (negate (← heap.looseEquals left right))) :=
    (looseEquals_stays encloses here there).bind fun _ _ => .pure trivial
  cases op with
  | add => exact add_stays encloses here there
  | sub => exact arithmetic_stays encloses _ here there
  | mul => exact arithmetic_stays encloses _ here there
  | div => exact arithmetic_stays encloses _ here there
  | rem => exact arithmetic_stays encloses _ here there
  | less => exact compareBy_stays encloses _ _ here there
  | lessEqual => exact compareBy_stays encloses _ _ here there
  | greater => exact compareBy_stays encloses _ _ here there
  | greaterEqual => exact compareBy_stays encloses _ _ here there
  | equal => exact compared fun equal => equal
  | notEqual => exact compared fun equal => !equal
  | strictEqual => exact .pure trivial
  | strictNotEqual => exact .pure trivial

theorem unary_stays (op : UnaryOp) {value : Value} (within : value.In inside) :
    Watch.Stays inside Value.IsPlain (heap.unary op value) := by
  cases op with
  | not => exact .pure trivial
  | neg => exact (toNumber_stays encloses within).bind fun _ _ => .pure trivial
  | plus => exact (toNumber_stays encloses within).bind fun _ _ => .pure trivial

end Heap

end LiveMarkup
