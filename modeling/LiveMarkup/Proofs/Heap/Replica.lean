import LiveMarkup.Proofs.Heap.Copy
import LiveMarkup.Proofs.Json.RoundTrip
import LiveMarkup.Proofs.Reactive.Tidy

/-!
# What a copy has of a value

A foreign value is rebuilt from the inside out.  The copy of an object has its properties in their
order and the copy of an array has its items, and each of them is a copy in turn.  What was set on
an array under names is not taken over.  Hence a way through the keys of a value leads to the same
place in its copy, unless it goes through such a name.
-/

namespace LiveMarkup

namespace Heap

/-! ## Ways through keys -/

/-- What a path of keys leads to from a value. -/
def follow (heap : Heap) : Value → List Key → Value
  | value, [] => value
  | .container id, key :: rest => heap.follow (heap.peek id key) rest
  | _, _ :: _ => .undefined

/-- Whether every key of a path is there in the container that the keys before it lead to. -/
def Owns (heap : Heap) : Value → List Key → Prop
  | _, [] => True
  | .container id, key :: rest => heap.contains id key = true ∧ heap.Owns (heap.peek id key) rest
  | _, _ :: _ => False

/-- Whether a path goes through a name that was set on an array. -/
def PassesName (heap : Heap) : Value → List Key → Prop
  | .container id, key :: rest =>
      (heap.isArray id = true ∧ key.Nominal) ∨ heap.PassesName (heap.peek id key) rest
  | _, _ => False

/-- Whether two values are the same plain value, arrays of one length, or objects with the same keys
in the same order. -/
inductive Matches (before after : Heap) : Value → Value → Prop
  /-- Plain values are the same. -/
  | plain {value : Value} (plain : ∀ id, value ≠ .container id) : Matches before after value value
  /-- Both values are arrays. -/
  | array {id other : ContainerId} (first : before.isArray id = true)
      (second : after.isArray other = true)
      (count : (after.contents other).count = (before.contents id).count) :
      Matches before after (.container id) (.container other)
  /-- Both values are objects. -/
  | object {id other : ContainerId} (first : before.isArray id = false)
      (second : after.isArray other = false)
      (keys : (after.contents other).table.keys = (before.contents id).table.keys) :
      Matches before after (.container id) (.container other)

/-! ## Copies -/

/-- Whether a value is a copy of another one: plain values are the same, and a container holds
copies of what the other one holds, apart from what was set on an array under names. -/
inductive Copies (before after : Heap) : Value → Value → Prop
  /-- A plain value is its own copy. -/
  | plain {value : Value} (plain : ∀ id, value ≠ .container id) : Copies before after value value
  /-- Items are copied in order. -/
  | array {id copy : ContainerId} {items copies : Array Value} {named : Assoc Key Value}
      (known : copy.index < after.containers.size)
      (held : before.contents id = .array items named)
      (made : after.contents copy = .array copies .empty) (size : copies.size = items.size)
      (each : ∀ position, position < items.size →
        Copies before after (items[position]?.getD .undefined) (copies[position]?.getD .undefined)) :
      Copies before after (.container id) (.container copy)
  /-- Properties are copied in order. -/
  | object {id copy : ContainerId} {properties copies : Assoc Key Value}
      (known : copy.index < after.containers.size)
      (held : before.contents id = .object properties) (made : after.contents copy = .object copies)
      (keys : copies.keys = properties.keys)
      (each : ∀ key ∈ properties.keys,
        Copies before after ((properties.get? key).getD .undefined)
          ((copies.get? key).getD .undefined)) :
      Copies before after (.container id) (.container copy)

variable {tracker : TrackerId} {before after later : Heap} {value copy : Value}

theorem Copies.mono (copies : before.Copies after value copy) (grows : after.Grows later) :
    before.Copies later value copy := by
  have stays {id : ContainerId} {contents : Contents} (known : id.index < after.containers.size)
      (made : after.contents id = contents) : later.contents id = contents :=
    (congrArg Container.contents (grows.container id known)).trans made
  induction copies with
  | plain plain => exact .plain plain
  | array known held made size _ ih =>
      exact .array (Nat.lt_of_lt_of_le known grows.size_le) held (stays known made) size ih
  | object known held made keys _ ih =>
      exact .object (Nat.lt_of_lt_of_le known grows.size_le) held (stays known made) keys ih

theorem Copies.matches (copies : before.Copies after value copy) : before.Matches after value copy := by
  cases copies with
  | plain plain => exact .plain plain
  | array known held made size each =>
      refine .array ?_ ?_ ?_
      · rw [isArray, held]; rfl
      · rw [isArray, made]; rfl
      · rw [held, made]; exact size
  | object known held made keys each =>
      refine .object ?_ ?_ ?_
      · rw [isArray, held]; rfl
      · rw [isArray, made]; rfl
      · rw [held, made]; exact keys

/-- What is read of a copy is a copy of what is read of the value, apart from the names of arrays.
-/
theorem Copies.peek {id other : ContainerId} {key : Key}
    (copies : before.Copies after (.container id) (.container other))
    (present : before.contains id key = true) (spares : ¬(before.isArray id = true ∧ key.Nominal)) :
    before.Copies after (before.peek id key) (after.peek other key) := by
  cases copies with
  | plain plain => exact absurd rfl (plain _)
  | @object _ _ properties copies known held made keys each =>
      rw [Heap.contains, held] at present
      rw [Heap.peek, Heap.peek, held, made]
      exact each key ((Assoc.contains_iff properties key).mp present)
  | @array _ _ items copies named known held made size each =>
      rw [Heap.contains, held] at present
      rw [Heap.isArray, held] at spares
      rw [Heap.peek, Heap.peek, held, made]
      cases key with
      | index position => exact each position (of_decide_eq_true present)
      | name name =>
          rcases Key.nominal_or_length name with nominal | length
          · exact absurd ⟨rfl, nominal⟩ spares
          · rw [length, Contents.lookup_length rfl, Contents.lookup_length rfl, Contents.count,
              Contents.count, size]
            exact .plain fun id same => by cases same

/-- The names of an array are missing in its copy. -/
theorem Copies.peek_name {id other : ContainerId} {key : Key}
    (copies : before.Copies after (.container id) (.container other))
    (isArray : before.isArray id = true) (nominal : key.Nominal) :
    after.peek other key = .undefined := by
  cases copies with
  | plain plain => exact absurd rfl (plain _)
  | object known held made keys each =>
      rw [Heap.isArray, held] at isArray
      exact absurd isArray Bool.false_ne_true
  | array known held made size each =>
      obtain ⟨name, ordinary, rfl⟩ := nominal
      rw [Heap.peek, made]
      simp only [Contents.lookup, Key.isLength_name ordinary]
      rfl

@[simp] theorem follow_nil (heap : Heap) (value : Value) : heap.follow value [] = value := by
  cases value <;> rfl

theorem follow_undefined (heap : Heap) (path : List Key) : heap.follow .undefined path = .undefined := by
  cases path <;> rfl

/-- A path that spares the names of arrays leads from a copy to a copy of what it leads to from the
value, and a path that passes such a name leads nowhere in the copy. -/
theorem Copies.along {path : List Key} (copies : before.Copies after value copy)
    (owns : before.Owns value path) :
    (¬before.PassesName value path →
      before.Copies after (before.follow value path) (after.follow copy path)) ∧
    (before.PassesName value path → after.follow copy path = .undefined) := by
  induction path generalizing value copy with
  | nil =>
      rw [follow_nil, follow_nil]
      refine ⟨fun _ => copies, fun passes => ?_⟩
      cases value <;> cases passes
  | cons key rest ih =>
      cases value with
      | container id =>
          obtain ⟨other, rfl⟩ : ∃ other, copy = .container other := by
            cases copies with
            | plain plain => exact absurd rfl (plain id)
            | array | object => exact ⟨_, rfl⟩
          obtain ⟨present, owns⟩ := owns
          by_cases here : before.isArray id = true ∧ key.Nominal
          · refine ⟨fun spares => absurd (.inl here) spares, fun _ => ?_⟩
            rw [follow, copies.peek_name here.1 here.2, follow_undefined]
          · obtain ⟨spared, passed⟩ := ih (copies.peek present here) owns
            refine ⟨fun spares => spared fun later => spares (.inr later), fun passes => ?_⟩
            exact passed (passes.resolve_left here)
      | _ => cases owns

/-! ## What adopting yields -/

/-- Each of a row of computations yields a result that goes with what it was given, and goes with it
in all heaps that grow from there. -/
theorem mapM_relates {α β : Type} {make : α → StateM Heap β} (relates : Heap → α → β → Prop)
    (mono : ∀ {heap later : Heap} {a : α} {b : β}, relates heap a b → heap.Grows later →
      relates later a b)
    {list : List α}
    (each : ∀ a ∈ list, ∀ heap, before.Grows heap →
      heap.Grows (make a heap).2 ∧ relates (make a heap).2 a (make a heap).1)
    {heap : Heap} (start : before.Grows heap) :
    heap.Grows (list.mapM make heap).2 ∧
      List.Forall₂ (relates (list.mapM make heap).2) list (list.mapM make heap).1 := by
  induction list generalizing heap with
  | nil => exact ⟨.refl heap, .nil⟩
  | cons head rest ih =>
      rw [List.forall_mem_cons] at each
      obtain ⟨grows, first⟩ := each.1 heap start
      obtain ⟨growsRest, later⟩ := ih each.2 (start.trans grows)
      rw [List.mapM_cons]
      exact ⟨grows.trans growsRest, .cons (mono first growsRest) later⟩

theorem forall₂_getD {α β : Type} {relates : α → β → Prop} {first : List α} {second : List β}
    (all : List.Forall₂ relates first second) (a : α) (b : β) (position : Nat)
    (inside : position < first.length) :
    relates (first[position]?.getD a) (second[position]?.getD b) := by
  induction all generalizing position with
  | nil => cases inside
  | cons head _ ih =>
      cases position with
      | zero => exact head
      | succ position => exact ih position (Nat.lt_of_succ_lt_succ inside)

theorem forall₂_fst {κ α β : Type} {relates : α → β → Prop} {first : List (κ × α)}
    {second : List (κ × β)}
    (all : List.Forall₂ (fun entry other => other.1 = entry.1 ∧ relates entry.2 other.2) first second) :
    second.map Prod.fst = first.map Prod.fst := by
  induction all with
  | nil => rfl
  | cons head _ ih => rw [List.map_cons, List.map_cons, head.1, ih]

theorem forall₂_lookup {κ α β : Type} [DecidableEq κ] {relates : α → β → Prop}
    {first : List (κ × α)} {second : List (κ × β)}
    (all : List.Forall₂ (fun entry other => other.1 = entry.1 ∧ relates entry.2 other.2) first second)
    (a : α) (b : β) {key : κ} (listed : key ∈ first.map Prod.fst) :
    relates ((Assoc.lookup key first).getD a) ((Assoc.lookup key second).getD b) := by
  induction all with
  | nil => cases listed
  | @cons entry other _ _ head _ ih =>
      rw [Assoc.lookup, Assoc.lookup, head.1]
      by_cases here : entry.1 = key
      · rw [if_pos here, if_pos here]
        exact head.2
      · rw [if_neg here, if_neg here]
        exact ih ((List.mem_cons.mp listed).resolve_left (Ne.symm here))

theorem known_newContainer (heap : Heap) (owner : TrackerId) (contents : Contents) :
    (heap.newContainer owner contents).1.index <
      (heap.newContainer owner contents).2.containers.size := by
  simp [newContainer]

/-- A way to take values that yields copies. -/
def TakesCopies (before : Heap) (take : Value → StateM Heap Value) (value : Value) : Prop :=
  ∀ heap, before.Grows heap →
    heap.Grows (take value heap).2 ∧ before.Copies (take value heap).2 value (take value heap).1

section Rebuild

variable {take : Value → StateM Heap Value} {id : ContainerId} {heap : Heap}
  (each : ∀ value ∈ (before.contents id).values, before.TakesCopies take value)
  (start : before.Grows heap)

include each start

/-- The items of an array are taken one after another, and its names are left behind. -/
theorem rebuild_array_copies {items : Array Value} {named : Assoc Key Value}
    (held : before.contents id = .array items named) :
    heap.Grows (rebuild tracker take (.array items named) heap).2 ∧
      before.Copies (rebuild tracker take (.array items named) heap).2 (.container id)
        (.container (rebuild tracker take (.array items named) heap).1) := by
  rw [held] at each
  have items_taken := fun value member => each value (List.mem_append_left _ member)
  obtain ⟨grows, copied⟩ := mapM_relates (fun heap => before.Copies heap) Copies.mono items_taken start
  let copies := (items.toList.mapM take heap).1
  let taken := (items.toList.mapM take heap).2
  have added : taken.Grows (taken.newContainer tracker (.array copies.toArray .empty)).2 :=
    newContainer_grows _ _ _
  have made := contents_newContainer taken tracker (.array copies.toArray .empty)
  have known := known_newContainer taken tracker (.array copies.toArray .empty)
  refine ⟨grows.trans added, .array known held made ?_ fun position inside => ?_⟩
  · exact copied.length_eq.symm
  · have copy := forall₂_getD copied .undefined .undefined position inside
    rw [Array.getElem?_toList] at copy
    have same : copies.toArray[position]? = copies[position]? := List.getElem?_toArray ..
    rw [same]
    exact copy.mono added

/-- The properties of an object are taken one after another under their names. -/
theorem rebuild_object_copies {properties : Assoc Key Value} (distinct : properties.keys.Nodup)
    (held : before.contents id = .object properties) :
    heap.Grows (rebuild tracker take (.object properties) heap).2 ∧
      before.Copies (rebuild tracker take (.object properties) heap).2 (.container id)
        (.container (rebuild tracker take (.object properties) heap).1) := by
  rw [held] at each
  let takeEntry (entry : Key × Value) : StateM Heap (Key × Value) := do
    return (entry.1, ← take entry.2)
  let relates (heap : Heap) (entry other : Key × Value) : Prop :=
    other.1 = entry.1 ∧ before.Copies heap entry.2 other.2
  have entries_taken : ∀ entry ∈ properties.entries, ∀ heap, before.Grows heap →
      heap.Grows (takeEntry entry heap).2 ∧
        relates (takeEntry entry heap).2 entry (takeEntry entry heap).1 := by
    intro entry member heap grows
    obtain ⟨added, copies⟩ := each entry.2 (List.mem_map_of_mem member) heap grows
    exact ⟨added, rfl, copies⟩
  obtain ⟨grows, copied⟩ := mapM_relates relates
    (fun both grows => ⟨both.1, both.2.mono grows⟩) entries_taken start
  let entries := (properties.entries.mapM takeEntry heap).1
  let taken := (properties.entries.mapM takeEntry heap).2
  have keys : entries.map Prod.fst = properties.keys := forall₂_fst copied
  have kept : (Assoc.ofList entries).entries = entries := Assoc.entries_ofList (keys ▸ distinct)
  have added : taken.Grows (taken.newContainer tracker (.object (.ofList entries))).2 :=
    newContainer_grows _ _ _
  have made := contents_newContainer taken tracker (.object (.ofList entries))
  have known := known_newContainer taken tracker (.object (.ofList entries))
  refine ⟨grows.trans added, .object known held made ?_ fun key listed => ?_⟩
  · rw [Assoc.keys, kept, keys]
  · have copy := forall₂_lookup copied .undefined .undefined listed
    rw [Assoc.get?, Assoc.get?, kept]
    exact copy.mono added

/-- A container is rebuilt as a copy if all that it holds is taken as copies. -/
theorem rebuild_copies (tidy : (before.contents id).Tidy) :
    heap.Grows (rebuild tracker take (before.contents id) heap).2 ∧
      before.Copies (rebuild tracker take (before.contents id) heap).2 (.container id)
        (.container (rebuild tracker take (before.contents id) heap).1) := by
  cases held : before.contents id with
  | array items named => exact rebuild_array_copies each start held
  | object properties =>
      rw [held] at tidy
      exact rebuild_object_copies each start tidy.distinct held

end Rebuild

/-- A foreign value is adopted as a copy if the bound on the nesting is great enough. -/
theorem adoptWithin_copies (closed : before.Closed) (tidy : before.Tidy) {other : TrackerId}
    (foreign : other ≠ tracker) (depth : Nat) {value : Value} (belongs : before.Belongs other value)
    (nests : before.NestsWithin depth value) : before.TakesCopies (adoptWithin tracker depth) value := by
  have of_plain {depth : Nat} {value : Value} (plain : ∀ id, value ≠ .container id) :
      before.TakesCopies (adoptWithin tracker depth) value := by
    intro heap _
    rw [adoptWithin_of_plain plain]
    exact ⟨.refl heap, .plain plain⟩
  induction depth generalizing value with
  | zero => exact of_plain nests
  | succ depth ih =>
      cases value with
      | container id =>
          intro heap grows
          obtain ⟨known, owned⟩ := belongs id rfl
          have there : heap.owner id ≠ tracker := by
            rw [grows.keeps.owner id known, owned]
            exact foreign
          have same : heap.contents id = before.contents id :=
            congrArg Container.contents (grows.container id known)
          rw [adoptWithin_succ there, same]
          refine rebuild_copies (fun inner member => ?_) grows (tidy id)
          exact ih (owned ▸ closed id known inner member) (nests id rfl inner member)
      | _ => exact of_plain (by simp)

/-- A foreign container without cycles is adopted as a copy of it. -/
theorem adopt_copies (closed : before.Closed) (tidy : before.Tidy) {root : ContainerId}
    (known : root.index < before.containers.size) (foreign : before.owner root ≠ tracker)
    (acyclic : before.Acyclic root) :
    ∃ copy after, adopt tracker (.container root) before = (.container copy, after) ∧
      before.Grows after ∧ before.Copies after (.container root) (.container copy) := by
  obtain ⟨copy, after, copied⟩ := copiedBy_of_acyclic closed known foreign acyclic
  have adopted := copied.adopted _ (Nat.le_refl _)
  have nests := acyclic.nests closed known
  have belongs : before.Belongs (before.owner root) (.container root) :=
    fun id same => Value.container.inj same ▸ ⟨known, rfl⟩
  obtain ⟨-, copies⟩ :=
    adoptWithin_copies closed tidy foreign before.containers.size belongs nests before (.refl before)
  rw [adopted] at copies
  exact ⟨copy, after, adopted, copied.grows, copies⟩

end Heap

end LiveMarkup
