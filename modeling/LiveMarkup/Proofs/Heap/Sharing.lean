import LiveMarkup.Proofs.Heap.Ownership
import LiveMarkup.Proofs.Heap.Reach

/-!
# Heaps that share containers

Two heaps may differ in a few containers and in their functions and still share all others.  If what
they share holds nothing else, then code that starts there computes in both of them the same: it
reads the same, it copies the same, and what it makes has the same identities and is shared again.
-/

namespace LiveMarkup

theorem List.mapM_congr_mem {m : Type → Type} [Monad m] [LawfulMonad m] {α β : Type}
    {first second : α → m β} {list : List α} (same : ∀ a ∈ list, second a = first a) :
    list.mapM second = list.mapM first := by
  induction list with
  | nil => rfl
  | cons a rest ih =>
      rw [List.mapM_cons, List.mapM_cons, same a List.mem_cons_self,
        ih fun other member => same other (List.mem_cons_of_mem a member)]

/-- What comes after a computation matters only for what that computation can yield. -/
theorem Watch.bind_congr {inside : ContainerId → Prop} {α β : Type} {good : α → Prop}
    {first : Watch α} {next other : α → Watch β} (stays : Watch.Stays inside good first)
    (same : ∀ a, good a → other a = next a) : first >>= other = first >>= next :=
  funext fun before => congrFun (same (first.run before).1 (stays.result before)) (first.run before).2

namespace Heap

/-- Whether two heaps have the same containers in a set to which all further ones will belong, and
the same events. -/
structure Shares (inside : ContainerId → Prop) (here there : Heap) : Prop where
  /-- There are as many containers. -/
  size : there.containers.size = here.containers.size
  /-- The containers of the set are the same. -/
  container : ∀ id, inside id → there.container id = here.container id
  /-- They hold nothing outside of the set. -/
  encloses : here.Encloses inside
  /-- What is made next belongs to the set. -/
  fresh : ∀ id : ContainerId, here.containers.size ≤ id.index → inside id
  /-- The events are the same. -/
  events : there.events = here.events

namespace Shares

variable {inside : ContainerId → Prop} {here there : Heap} (shares : here.Shares inside there)

include shares

theorem contents {id : ContainerId} (member : inside id) : there.contents id = here.contents id :=
  congrArg Container.contents (shares.container id member)

theorem isArray {id : ContainerId} (member : inside id) : there.isArray id = here.isArray id :=
  congrArg Contents.isArray (shares.contents member)

theorem owner {id : ContainerId} (member : inside id) : there.owner id = here.owner id :=
  congrArg Container.owner (shares.container id member)

theorem event (id : EventId) : there.event id = here.event id := by
  rw [Heap.event, shares.events, Heap.event]

/-! ## Reads -/

theorem get {id : ContainerId} (member : inside id) (key : Key) :
    there.get id key = here.get id key := by
  simp only [Heap.get, Heap.peek, shares.contents member]

theorem length {id : ContainerId} (member : inside id) : there.length id = here.length id := by
  simp only [Heap.length, shares.contents member]

theorem items {id : ContainerId} (member : inside id) : there.items id = here.items id := by
  simp only [Heap.items, shares.contents member, shares.get member, shares.length member]

theorem typeName {value : Value} (within : value.In inside) :
    there.typeName value = here.typeName value := by
  cases value with
  | container id => simp only [Heap.typeName, shares.isArray (within id rfl)]
  | _ => rfl

theorem joinWith {itemText otherText : List ContainerId → Value → Watch String}
    (same : ∀ path item, item.In inside → otherText path item = itemText path item)
    (separator : String) (path : List ContainerId) {id : ContainerId} (member : inside id) :
    there.joinWith otherText separator path id = here.joinWith itemText separator path id := by
  unfold Heap.joinWith
  rw [shares.items member]
  split
  · rfl
  · refine Watch.bind_congr (items_stays shares.encloses member) fun items within => ?_
    refine congrArg (· >>= _) (List.mapM_congr_mem fun item listed => ?_)
    split
    · rfl
    · exact same _ item (within item listed)

theorem displayWithin (depth : Nat) (path : List ContainerId) {value : Value}
    (within : value.In inside) :
    there.displayWithin depth path value = here.displayWithin depth path value := by
  induction depth generalizing path value with
  | zero =>
      cases value with
      | container id =>
          simp only [Heap.displayWithin, shares.isArray (within id rfl)]
      | event id => simp only [Heap.displayWithin, shares.event]
      | _ => rfl
  | succ depth ih =>
      cases value with
      | container id =>
          simp only [Heap.displayWithin, shares.isArray (within id rfl),
            shares.joinWith (fun path item => ih path) "," path (within id rfl)]
      | event id => simp only [Heap.displayWithin, shares.event]
      | _ => rfl

theorem display {value : Value} (within : value.In inside) :
    there.display value = here.display value := by
  rw [Heap.display, shares.size, shares.displayWithin _ _ within, Heap.display]

theorem join (separator : String) {id : ContainerId} (member : inside id) :
    there.join separator id = here.join separator id := by
  rw [Heap.join, shares.size, Heap.join]
  exact shares.joinWith (fun path item => shares.displayWithin _ path) separator [] member

theorem keyOf {value : Value} (within : value.In inside) : there.keyOf value = here.keyOf value := by
  cases value with
  | number x => rfl
  | _ => simp only [Heap.keyOf, shares.display within]

theorem toNumber {value : Value} (within : value.In inside) :
    there.toNumber value = here.toNumber value := by
  cases value with
  | container id =>
      simp only [Heap.toNumber, shares.isArray (within id rfl), shares.display within]
  | _ => rfl

theorem looseEquals {left right : Value} (first : left.In inside) (second : right.In inside) :
    there.looseEquals left right = here.looseEquals left right := by
  have converted {value : Value} {id : ContainerId} (within : value.In inside)
      (same : withoutBool value = .container id) : (Value.container id).In inside := by
    cases value with
    | bool value => exact Value.noConfusion same
    | _ => exact same ▸ within
  unfold Heap.looseEquals
  by_cases nullish : (left.isNullish || right.isNullish) = true
  · simp only [if_pos nullish]
  · simp only [if_neg nullish]
    split
    next same _ => rw [shares.display (converted first same)]
    next same _ => rw [shares.display (converted first same)]
    next _ same => rw [shares.display (converted second same)]
    next _ same => rw [shares.display (converted second same)]
    next => rfl

theorem arithmetic (op : Float → Float → Float) {left right : Value} (first : left.In inside)
    (second : right.In inside) : there.arithmetic op left right = here.arithmetic op left right := by
  simp only [Heap.arithmetic, shares.toNumber first, shares.toNumber second]

theorem compareBy (texts : String → String → Bool) (numbers : Float → Float → Bool)
    {left right : Value} (first : left.In inside) (second : right.In inside) :
    there.compareBy texts numbers left right = here.compareBy texts numbers left right := by
  unfold Heap.compareBy
  split
  · rfl
  · rw [shares.toNumber first, shares.toNumber second]

theorem binary (op : BinaryOp) {left right : Value} (first : left.In inside)
    (second : right.In inside) : there.binary op left right = here.binary op left right := by
  cases op with
  | add =>
      simp only [Heap.binary, Heap.add, shares.display first, shares.display second,
        shares.arithmetic _ first second]
  | sub => exact shares.arithmetic _ first second
  | mul => exact shares.arithmetic _ first second
  | div => exact shares.arithmetic _ first second
  | rem => exact shares.arithmetic _ first second
  | less => exact shares.compareBy _ _ first second
  | lessEqual => exact shares.compareBy _ _ first second
  | greater => exact shares.compareBy _ _ first second
  | greaterEqual => exact shares.compareBy _ _ first second
  | equal => simp only [Heap.binary, shares.looseEquals first second]
  | notEqual => simp only [Heap.binary, shares.looseEquals first second]
  | strictEqual => rfl
  | strictNotEqual => rfl

theorem unary (op : UnaryOp) {value : Value} (within : value.In inside) :
    there.unary op value = here.unary op value := by
  cases op with
  | not => rfl
  | neg => simp only [Heap.unary, shares.toNumber within]
  | plus => simp only [Heap.unary, shares.toNumber within]

/-! ## What is made -/

theorem newContainer (tracker : TrackerId) {contents : Contents}
    (within : ∀ value ∈ contents.values, value.In inside) :
    (here.newContainer tracker contents).2.Shares inside (there.newContainer tracker contents).2 where
  size := by simp [Heap.newContainer, shares.size]
  container id member := by
    rw [container_newContainer, container_newContainer, shares.size, shares.container id member]
  encloses id member value held := by
    rw [Heap.contents, container_newContainer] at held
    split at held
    · exact within value held
    · exact shares.encloses id member value held
  fresh id new := by
    refine shares.fresh id (Nat.le_of_succ_le ?_)
    simpa [Heap.newContainer] using new
  events := shares.events

end Shares

/-- Whether a computation does the same in all heaps that share containers, with a good result. -/
def InStep {α : Type} (inside : ContainerId → Prop) (good : α → Prop) (computation : StateM Heap α) :
    Prop :=
  ∀ here there : Heap, here.Shares inside there →
    (computation there).1 = (computation here).1 ∧ good (computation here).1 ∧
      (computation here).2.Shares inside (computation there).2

namespace InStep

variable {inside : ContainerId → Prop} {tracker : TrackerId} {α β : Type} {good : α → Prop}
  {goodNext : β → Prop}

theorem pure {a : α} (holds : good a) : InStep inside good (Pure.pure a : StateM Heap α) :=
  fun _ _ shares => ⟨rfl, holds, shares⟩

theorem bind {first : StateM Heap α} {next : α → StateM Heap β} (inStep : InStep inside good first)
    (later : ∀ a, good a → InStep inside goodNext (next a)) :
    InStep inside goodNext (first >>= next) := by
  intro here there shares
  obtain ⟨same, holds, between⟩ := inStep here there shares
  have rest := later _ holds _ _ between
  change ((next (first there).1) (first there).2).1 = _ ∧ _ ∧ Shares inside _
    ((next (first there).1) (first there).2).2
  rw [same]
  exact rest

theorem mapM {make : α → StateM Heap β} {list : List α}
    (each : ∀ a ∈ list, InStep inside goodNext (make a)) :
    InStep inside (fun results => ∀ b ∈ results, goodNext b) (list.mapM make) := by
  induction list with
  | nil => exact pure fun _ member => absurd member List.not_mem_nil
  | cons a rest ih =>
      rw [List.mapM_cons]
      refine (each a List.mem_cons_self).bind fun first holds => ?_
      refine (ih fun other member => each other (List.mem_cons_of_mem a member)).bind
        fun others all => pure ?_
      exact List.forall_mem_cons.mpr ⟨holds, all⟩

theorem newContainer {contents : Contents} (within : ∀ value ∈ contents.values, value.In inside) :
    InStep inside inside (modifyGet fun heap => heap.newContainer tracker contents) :=
  fun _ _ shares =>
    ⟨congrArg ContainerId.mk shares.size, shares.fresh _ (Nat.le_refl _),
      shares.newContainer tracker within⟩

theorem buildArray {take : Value → StateM Heap Value} {items : List Value}
    (takes : ∀ item ∈ items, InStep inside (Value.In inside) (take item)) :
    InStep inside inside (Heap.buildArray tracker take items) := by
  refine (mapM takes).bind fun taken within => newContainer fun value member => within value ?_
  simpa [Contents.values, Assoc.empty] using member

theorem buildObject {take : Value → StateM Heap Value} {entries : List (Key × Value)}
    (takes : ∀ entry ∈ entries, InStep inside (Value.In inside) (take entry.2)) :
    InStep inside inside (Heap.buildObject tracker take entries) := by
  have each : ∀ entry ∈ entries, InStep inside (fun entry : Key × Value => entry.2.In inside)
      (do return (entry.1, ← take entry.2)) :=
    fun entry member => (takes entry member).bind fun _ within => pure within
  refine (mapM each).bind fun taken within => newContainer fun value member => ?_
  obtain ⟨entry, listed, rfl⟩ := List.mem_map.mp member
  exact within entry (Assoc.mem_ofList listed)

theorem adoptWithin (tracker : TrackerId) (depth : Nat) {value : Value} (within : value.In inside) :
    InStep inside (Value.In inside) (Heap.adoptWithin tracker depth value) := by
  induction depth generalizing value with
  | zero =>
      cases value with
      | container id =>
          intro here there shares
          by_cases own : here.owner id = tracker
          · have ownThere := (shares.owner (within id rfl)).trans own
            rw [adoptWithin_of_owner own, adoptWithin_of_owner ownThere]
            exact ⟨rfl, within, shares⟩
          · have foreign : there.owner id ≠ tracker := (shares.owner (within id rfl)).symm ▸ own
            rw [adoptWithin_zero own, adoptWithin_zero foreign]
            exact ⟨rfl, Value.IsPlain.inside trivial, shares⟩
      | _ => exact pure within
  | succ depth ih =>
      cases value with
      | container id =>
          intro here there shares
          by_cases own : here.owner id = tracker
          · have ownThere := (shares.owner (within id rfl)).trans own
            rw [adoptWithin_of_owner own, adoptWithin_of_owner ownThere]
            exact ⟨rfl, within, shares⟩
          · have foreign : there.owner id ≠ tracker := (shares.owner (within id rfl)).symm ▸ own
            have held := shares.encloses id (within id rfl)
            rw [adoptWithin_succ own, adoptWithin_succ foreign, shares.contents (within id rfl)]
            have rebuilt : InStep inside inside
                (rebuild tracker (Heap.adoptWithin tracker depth) (here.contents id)) := by
              cases contents : here.contents id with
              | array items named =>
                  rw [contents] at held
                  exact buildArray fun item member => ih (held item (List.mem_append_left _ member))
              | object properties =>
                  rw [contents] at held
                  exact buildObject fun entry member =>
                    ih (held entry.2 (List.mem_map.mpr ⟨entry, member, rfl⟩))
            have copied : InStep inside (Value.In inside)
                (do return .container (← rebuild tracker (Heap.adoptWithin tracker depth)
                  (here.contents id))) :=
              rebuilt.bind fun _ member => pure (Value.in_container.mpr member)
            exact copied here there shares
      | _ => exact pure within

theorem adopt {value : Value} (within : value.In inside) :
    InStep inside (Value.In inside) (Heap.adopt tracker value) := by
  intro here there shares
  have adopted := adoptWithin tracker here.containers.size within here there shares
  change (Heap.adoptWithin tracker there.containers.size value there).1 = _ ∧ _ ∧
    Shares inside _ (Heap.adoptWithin tracker there.containers.size value there).2
  rw [shares.size]
  exact adopted

theorem newArray {items : List Value} (within : ∀ item ∈ items, item.In inside) :
    InStep inside inside (Heap.newArray tracker items) :=
  buildArray fun item member => adopt (within item member)

theorem newObject {entries : List (Key × Value)} (within : ∀ entry ∈ entries, entry.2.In inside) :
    InStep inside inside (Heap.newObject tracker entries) :=
  buildObject fun entry member => adopt (within entry member)

end InStep

end Heap

end LiveMarkup
