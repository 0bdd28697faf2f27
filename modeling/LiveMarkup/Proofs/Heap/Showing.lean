import Mathlib.Data.List.Forall2
import Mathlib.Logic.Relation
import LiveMarkup.Proofs.Heap.Display
import LiveMarkup.Proofs.Heap.Reads

/-!
# What values show as

The text of an array is made of the texts of its items, and these may be arrays again, in any shape:
an array may be an item of several arrays, or of itself.  Here texts are derived by rules that know
no bound on the nesting.  While an array is being shown it lies on a path, and where it is met again
it shows as nothing.  Every value has exactly one derivation, so showing it ends, and the display
text is what is derived.  An array that is not nested in itself shows the same text wherever it is
met.
-/

namespace LiveMarkup

/-- Whether a computation that reads has a result, whatever was read before. -/
def Watch.Answers {α : Type} (computation : Watch α) (a : α) : Prop :=
  ∀ reads : Array Access, (computation.run reads).1 = a

namespace Watch.Answers

variable {α β : Type}

theorem pure (a : α) : Watch.Answers (Pure.pure a) a := fun _ => rfl

theorem bind {first : Watch α} {next : α → Watch β} {a : α} {b : β} (answers : first.Answers a)
    (later : (next a).Answers b) : Watch.Answers (first >>= next) b := by
  intro reads
  have there := later (first.run reads).2
  rw [← answers reads] at there
  exact there

theorem mapM {next : α → Watch β} {list : List α} {results : List β}
    (each : List.Forall₂ (fun a b => (next a).Answers b) list results) :
    Watch.Answers (list.mapM next) results := by
  induction each with
  | nil => exact pure []
  | cons answers _ ih =>
      rw [List.mapM_cons]
      exact answers.bind (ih.bind (pure _))

theorem unique {computation : Watch α} {first second : α} (answers : computation.Answers first)
    (again : computation.Answers second) : first = second :=
  (answers #[]).symm.trans (again #[])

end Watch.Answers

namespace Heap

mutual

/-- Whether a value shows as a text while the arrays of a path are being shown. -/
inductive Shows (heap : Heap) : List ContainerId → Value → String → Prop
  | undefined {path : List ContainerId} : Shows heap path .undefined "undefined"
  | null {path : List ContainerId} : Shows heap path .null "null"
  | yes {path : List ContainerId} : Shows heap path (.bool true) "true"
  | no {path : List ContainerId} : Shows heap path (.bool false) "false"
  | number {path : List ContainerId} {x : Float} : Shows heap path (.number x) (displayNumber x)
  | text {path : List ContainerId} {text : String} : Shows heap path (.text text) text
  | function {path : List ContainerId} {id : FunctionId} : Shows heap path (.function id) "function"
  | event {path : List ContainerId} {id : EventId} :
      Shows heap path (.event id) ("[object Event:" ++ (heap.event id).kind ++ "]")
  /-- All objects show alike. -/
  | object {path : List ContainerId} {id : ContainerId} {properties : Assoc Key Value}
      (contents : heap.contents id = .object properties) :
      Shows heap path (.container id) "[object Object]"
  /-- The items of an array have commas between them. -/
  | array {path : List ContainerId} {id : ContainerId} {items : Array Value}
      {named : Assoc Key Value} {text : String} (contents : heap.contents id = .array items named)
      (joined : Joins heap path "," id text) : Shows heap path (.container id) text

/-- Whether an array shows as a text with a separator between its items, while the arrays of a path
are being shown. -/
inductive Joins (heap : Heap) : List ContainerId → String → ContainerId → String → Prop
  /-- An array that is being shown already shows as nothing. -/
  | again {path : List ContainerId} {separator : String} {id : ContainerId} (member : id ∈ path) :
      Joins heap path separator id ""
  /-- Otherwise its items show while it is being shown itself. -/
  | fresh {path : List ContainerId} {separator : String} {id : ContainerId} {items : Array Value}
      {named : Assoc Key Value} {texts : List String} (missing : id ∉ path)
      (contents : heap.contents id = .array items named)
      (shown : ShowsItems heap (id :: path) items.toList texts) :
      Joins heap path separator id (separator.intercalate texts)

/-- Whether the items of an array show as texts while the arrays of a path are being shown. -/
inductive ShowsItems (heap : Heap) : List ContainerId → List Value → List String → Prop
  | nil {path : List ContainerId} : ShowsItems heap path [] []
  /-- Undefined and null show as nothing. -/
  | blank {path : List ContainerId} {item : Value} {rest : List Value} {texts : List String}
      (nullish : item.isNullish = true) (others : ShowsItems heap path rest texts) :
      ShowsItems heap path (item :: rest) ("" :: texts)
  | cons {path : List ContainerId} {item : Value} {rest : List Value} {text : String}
      {texts : List String} (present : item.isNullish = false) (first : Shows heap path item text)
      (others : ShowsItems heap path rest texts) :
      ShowsItems heap path (item :: rest) (text :: texts)

end

variable {heap : Heap}

/-! ## One text for each value -/

theorem Shows.joins {path : List ContainerId} {id : ContainerId} {items : Array Value}
    {named : Assoc Key Value} {text : String} (contents : heap.contents id = .array items named)
    (shows : heap.Shows path (.container id) text) : heap.Joins path "," id text := by
  cases shows with
  | object other => exact nomatch contents.symm.trans other
  | array _ joined => exact joined

theorem Joins.items {path : List ContainerId} {separator : String} {id : ContainerId}
    {items : Array Value} {named : Assoc Key Value} {text : String} (missing : id ∉ path)
    (contents : heap.contents id = .array items named) (joins : heap.Joins path separator id text) :
    ∃ texts, heap.ShowsItems (id :: path) items.toList texts ∧ text = separator.intercalate texts := by
  cases joins with
  | again member => exact absurd member missing
  | fresh _ same shown =>
      obtain ⟨rfl, rfl⟩ := Contents.array.inj (contents.symm.trans same)
      exact ⟨_, shown, rfl⟩

mutual

theorem Shows.unique {path : List ContainerId} {value : Value} {first second : String} :
    heap.Shows path value first → heap.Shows path value second → second = first
  | .array contents joined, again => joined.unique (again.joins contents)
  | .object contents, again => by
      cases again with
      | object => rfl
      | array other => exact nomatch contents.symm.trans other
  | .undefined, again | .null, again | .yes, again | .no, again | .number, again | .text, again
  | .function, again | .event, again => by cases again; rfl

theorem Joins.unique {path : List ContainerId} {separator : String} {id : ContainerId}
    {first second : String} :
    heap.Joins path separator id first → heap.Joins path separator id second → second = first
  | .again member, again => by
      cases again with
      | again => rfl
      | fresh missing => exact absurd member missing
  | .fresh missing contents shown, again => by
      obtain ⟨texts, shownAgain, rfl⟩ := again.items missing contents
      rw [shown.unique shownAgain]

theorem ShowsItems.unique {path : List ContainerId} {items : List Value}
    {first second : List String} :
    heap.ShowsItems path items first → heap.ShowsItems path items second → second = first
  | .nil, again => by cases again; rfl
  | .blank nullish others, again => by
      cases again with
      | blank _ othersAgain => rw [others.unique othersAgain]
      | cons present => exact absurd (nullish.symm.trans present) Bool.noConfusion
  | .cons present shown others, again => by
      cases again with
      | blank nullish => exact absurd (nullish.symm.trans present) Bool.noConfusion
      | cons _ shownAgain othersAgain => rw [shown.unique shownAgain, others.unique othersAgain]

end

/-! ## The display text -/

theorem listed_array (items : Array Value) (named : Assoc Key Value) :
    (Contents.array items named).listed = items.toList := by
  refine List.ext_getElem (by simp [Contents.listed, Contents.listedKeys]) fun position _ known => ?_
  have inside : position < items.size := by simpa using known
  simp [Contents.listed, Contents.listedKeys, Contents.lookup, inside]

theorem answers_items {id : ContainerId} {items : Array Value} {named : Assoc Key Value}
    (contents : heap.contents id = .array items named) : (heap.items id).Answers items.toList := by
  intro reads
  rw [run_items, contents, listed_array]

/-- If every item has a text that the computation finds, so have all of them together. -/
theorem showsItems_mapM {path : List ContainerId} {itemText : Value → Watch String}
    (each : ∀ item, ∃ text, heap.Shows path item text ∧ (itemText item).Answers text)
    (items : List Value) :
    ∃ texts, heap.ShowsItems path items texts ∧
      List.Forall₂ (fun item text => Watch.Answers
        (if item.isNullish then pure "" else itemText item) text) items texts := by
  induction items with
  | nil => exact ⟨[], .nil, .nil⟩
  | cons item rest ih =>
      obtain ⟨texts, shown, found⟩ := ih
      cases nullish : item.isNullish with
      | true => exact ⟨"" :: texts, .blank nullish shown, .cons (by rw [nullish]; exact .pure "") found⟩
      | false =>
          obtain ⟨text, first, answers⟩ := each item
          exact ⟨text :: texts, .cons nullish first shown, .cons (by rw [nullish]; exact answers) found⟩

theorem joins_joinWith {path : List ContainerId} {id : ContainerId}
    {itemText : List ContainerId → Value → Watch String} (isArray : heap.isArray id = true)
    (each : id ∉ path → ∀ item, ∃ text, heap.Shows (id :: path) item text ∧
      (itemText (id :: path) item).Answers text) (separator : String) :
    ∃ text, heap.Joins path separator id text ∧
      (heap.joinWith itemText separator path id).Answers text := by
  by_cases member : id ∈ path
  · rw [joinWith_of_mem member]
    exact ⟨"", .again member, .pure ""⟩
  · cases contents : heap.contents id with
    | object properties =>
        rw [Heap.isArray, contents] at isArray
        contradiction
    | array items named =>
        obtain ⟨texts, shown, found⟩ := showsItems_mapM (each member) items.toList
        refine ⟨separator.intercalate texts, .fresh member contents shown, ?_⟩
        rw [joinWith, if_neg member]
        exact (answers_items contents).bind ((Watch.Answers.mapM found).bind (.pure _))

/-- What is no container shows the same text everywhere. -/
theorem shows_of_not_container (heap : Heap) (depth : Nat) (path : List ContainerId) {value : Value}
    (single : ∀ id, value ≠ .container id) :
    ∃ text, heap.Shows path value text ∧ (heap.displayWithin depth path value).Answers text := by
  cases value with
  | container id => exact absurd rfl (single id)
  | bool value => cases depth <;> cases value <;> exact ⟨_, by constructor, .pure _⟩
  | _ => cases depth <;> exact ⟨_, by constructor, .pure _⟩

theorem shows_of_object {id : ContainerId} {properties : Assoc Key Value}
    (contents : heap.contents id = .object properties) (depth : Nat) (path : List ContainerId) :
    ∃ text, heap.Shows path (.container id) text ∧
      (heap.displayWithin depth path (.container id)).Answers text := by
  refine ⟨_, .object contents, ?_⟩
  cases depth <;>
    · rw [displayWithin, Heap.isArray, contents]
      exact .pure _

/-- A bound that leaves room for all containers that are not on the path finds the text of a value. -/
theorem shows_displayWithin {depth : Nat} {path : List ContainerId} (nodup : path.Nodup)
    (known : ∀ other ∈ path, other.index < heap.containers.size)
    (enough : heap.containers.size ≤ depth + path.length) (value : Value) :
    ∃ text, heap.Shows path value text ∧ (heap.displayWithin depth path value).Answers text := by
  induction depth generalizing path value with
  | zero =>
      cases value with
      | container id =>
          cases contents : heap.contents id with
          | object properties => exact shows_of_object contents 0 path
          | array items named =>
              have isArray : heap.isArray id = true := by rw [Heap.isArray, contents]; rfl
              -- the path goes through all containers, this one among them
              have member : id ∈ path :=
                mem_of_size_le_length nodup known (by omega) (isArray_known isArray)
              refine ⟨"", .array contents (.again member), ?_⟩
              rw [displayWithin, if_pos isArray]
              exact .pure ""
      | _ => exact shows_of_not_container heap 0 path fun _ same => by cases same
  | succ depth ih =>
      cases value with
      | container id =>
          cases contents : heap.contents id with
          | object properties => exact shows_of_object contents (depth + 1) path
          | array items named =>
              have isArray : heap.isArray id = true := by rw [Heap.isArray, contents]; rfl
              rw [displayWithin, if_pos isArray]
              have each (missing : id ∉ path) (item : Value) : ∃ text,
                  heap.Shows (id :: path) item text ∧
                    (heap.displayWithin depth (id :: path) item).Answers text := by
                refine ih (List.nodup_cons.mpr ⟨missing, nodup⟩) ?_ ?_ item
                · exact List.forall_mem_cons.mpr ⟨isArray_known isArray, known⟩
                · rw [List.length_cons]
                  omega
              obtain ⟨text, joins, answers⟩ := joins_joinWith isArray each ","
              exact ⟨text, .array contents joins, answers⟩
      | _ => exact shows_of_not_container heap (depth + 1) path fun _ same => by cases same

theorem shows_display (heap : Heap) (value : Value) :
    ∃ text, heap.Shows [] value text ∧ (heap.display value).Answers text :=
  shows_displayWithin .nil (fun _ member => nomatch member) (Nat.le_add_right _ _) value

theorem joins_join (separator : String) {id : ContainerId} (isArray : heap.isArray id = true) :
    ∃ text, heap.Joins [] separator id text ∧ (heap.join separator id).Answers text := by
  refine joins_joinWith isArray (fun missing item => ?_) separator
  refine shows_displayWithin (List.nodup_cons.mpr ⟨missing, .nil⟩) ?_ (Nat.le_add_right _ _) item
  exact List.forall_mem_singleton.mpr (isArray_known isArray)

/-- The display text of a value is the one that it shows as. -/
theorem shows_iff_display {value : Value} {text : String} :
    heap.Shows [] value text ↔ (heap.display value).Answers text := by
  obtain ⟨own, shows, answers⟩ := shows_display heap value
  constructor
  · exact fun shown => shows.unique shown ▸ answers
  · exact fun given => answers.unique given ▸ shows

theorem joins_iff_join {separator : String} {id : ContainerId} (isArray : heap.isArray id = true)
    {text : String} : heap.Joins [] separator id text ↔ (heap.join separator id).Answers text := by
  obtain ⟨own, joins, answers⟩ := joins_join separator isArray
  constructor
  · exact fun joined => joins.unique joined ▸ answers
  · exact fun given => answers.unique given ▸ joins

/-! ## Shared arrays -/

/-- Whether the first container is an array with the second one among its items. -/
def HasItem (heap : Heap) (outer inner : ContainerId) : Prop :=
  ∃ items named, heap.contents outer = .array items named ∧ .container inner ∈ items.toList

/-- Whether the second container is nested in the first one: it is an item of it, or of an array
among its items, and so on. -/
def Nests (heap : Heap) : ContainerId → ContainerId → Prop := Relation.TransGen heap.HasItem

/-- Whether a container is met while a root array is being shown, and with it the arrays of a path.
-/
inductive Meets (heap : Heap) (root : ContainerId) : List ContainerId → ContainerId → Prop
  /-- The root comes first. -/
  | root : Meets heap root [] root
  /-- An array that is not being shown yet leads to its items. -/
  | item {path : List ContainerId} {outer inner : ContainerId} (met : Meets heap root path outer)
      (missing : outer ∉ path) (held : heap.HasItem outer inner) :
      Meets heap root (outer :: path) inner

theorem Meets.nests {root id : ContainerId} {path : List ContainerId} (met : heap.Meets root path id) :
    ∀ outer ∈ path, heap.Nests outer id := by
  induction met with
  | root => exact fun _ member => nomatch member
  | item _ _ held ih =>
      intro outer member
      rcases List.mem_cons.mp member with rfl | further
      · exact .single held
      · exact (ih outer further).tail held

/-- Whether two paths differ only in what a container does not lead to. -/
def PathsAgree (heap : Heap) (first second : List ContainerId) (id : ContainerId) : Prop :=
  ∀ inner, Relation.ReflTransGen heap.HasItem id inner → (inner ∈ first ↔ inner ∈ second)

theorem PathsAgree.item {first second : List ContainerId} {outer inner : ContainerId}
    (agree : heap.PathsAgree first second outer) (held : heap.HasItem outer inner) :
    heap.PathsAgree (outer :: first) (outer :: second) inner := by
  intro other leads
  rw [List.mem_cons, List.mem_cons, agree other (.head held leads)]

mutual

theorem Shows.of_pathsAgree {first second : List ContainerId} {value : Value} {text : String} :
    heap.Shows first value text →
      (∀ id, value = .container id → heap.PathsAgree first second id) → heap.Shows second value text
  | .object contents, _ => .object contents
  | .array contents joined, agree => .array contents (joined.of_pathsAgree (agree _ rfl))
  | .undefined, _ => .undefined
  | .null, _ => .null
  | .yes, _ => .yes
  | .no, _ => .no
  | .number, _ => .number
  | .text, _ => .text
  | .function, _ => .function
  | .event, _ => .event

theorem Joins.of_pathsAgree {first second : List ContainerId} {separator : String} {id : ContainerId}
    {text : String} : heap.Joins first separator id text → heap.PathsAgree first second id →
      heap.Joins second separator id text
  | .again member, agree => .again ((agree id .refl).mp member)
  | .fresh missing contents shown, agree =>
      .fresh (fun member => missing ((agree id .refl).mpr member)) contents
        (shown.of_pathsAgree fun _ member => agree.item ⟨_, _, contents, member⟩)

theorem ShowsItems.of_pathsAgree {first second : List ContainerId} {items : List Value}
    {texts : List String} : heap.ShowsItems first items texts →
      (∀ id, .container id ∈ items → heap.PathsAgree first second id) →
        heap.ShowsItems second items texts
  | .nil, _ => .nil
  | .blank nullish others, agree =>
      .blank nullish (others.of_pathsAgree fun id later => agree id (List.mem_cons_of_mem _ later))
  | .cons present shown others, agree =>
      .cons present (shown.of_pathsAgree fun id same => agree id (same ▸ List.mem_cons_self))
        (others.of_pathsAgree fun id later => agree id (List.mem_cons_of_mem _ later))

end

/-- What is not nested in itself leads to nothing that is being shown where it is met. -/
theorem Meets.pathsAgree {root id : ContainerId} {path : List ContainerId}
    (met : heap.Meets root path id) (apart : ¬heap.Nests id id) : heap.PathsAgree path [] id := by
  intro inner leads
  refine iff_of_false (fun member => apart ?_) List.not_mem_nil
  exact .trans_right leads (met.nests inner member)

/-- Showing a value ends, and so does joining the items of an array, however arrays are nested in
one another or in themselves: both have a derivation.  The display text, and the joined one, are
those that are derived.  An array that is not nested in itself shows its whole text wherever it is
met while another array is being shown. -/
theorem every_value_shows (heap : Heap) :
    (∀ value, ∃ text, heap.Shows [] value text) ∧
    (∀ value text, heap.Shows [] value text ↔ (heap.display value).Answers text) ∧
    (∀ separator id, heap.isArray id = true →
      (∃ text, heap.Joins [] separator id text) ∧
        ∀ text, heap.Joins [] separator id text ↔ (heap.join separator id).Answers text) ∧
    ∀ root path id, heap.Meets root path id → ¬heap.Nests id id →
      ∀ text, heap.Shows path (.container id) text ↔ heap.Shows [] (.container id) text := by
  refine ⟨fun value => ?_, fun value text => shows_iff_display, fun separator id isArray => ⟨?_, ?_⟩,
    fun root path id met apart text => ⟨?_, ?_⟩⟩
  · obtain ⟨text, shows, _⟩ := shows_display heap value
    exact ⟨text, shows⟩
  · obtain ⟨text, joins, _⟩ := joins_join separator isArray
    exact ⟨text, joins⟩
  · exact fun text => joins_iff_join isArray
  · exact fun shows => shows.of_pathsAgree fun _ same =>
      Value.container.inj same ▸ met.pathsAgree apart
  · refine fun shows => shows.of_pathsAgree fun _ same inner leads => ?_
    exact (met.pathsAgree apart inner (Value.container.inj same ▸ leads)).symm

/-- An array that has another one twice among its items, and itself, and null. -/
def looped : Heap :=
  let pair : Contents := .array #[.text "a", .text "b"] .empty
  let outer : Contents := .array #[.container ⟨1⟩, .container ⟨1⟩, .container ⟨0⟩, .null] .empty
  ⟨#[⟨⟨0⟩, outer⟩, ⟨⟨0⟩, pair⟩], #[], #[]⟩

theorem looped_apart : ¬looped.Nests ⟨1⟩ ⟨1⟩ := by
  intro nests
  obtain ⟨inner, ⟨items, named, contents, member⟩, _⟩ := Relation.TransGen.head'_iff.mp nests
  obtain ⟨rfl, rfl⟩ := Contents.array.inj contents
  simp at member

theorem looped_shows : looped.Shows [] (.container ⟨0⟩) "a,b,a,b,," ∧
    looped.isArray ⟨0⟩ = true ∧ looped.Joins [] ";" ⟨0⟩ "a,b;a,b;;" ∧
    looped.Meets ⟨0⟩ [⟨0⟩] ⟨1⟩ ∧ ¬looped.Nests ⟨1⟩ ⟨1⟩ ∧ looped.Shows [⟨0⟩] (.container ⟨1⟩) "a,b" := by
  obtain ⟨_, shown, joined, shared⟩ := every_value_shows looped
  have met : looped.Meets ⟨0⟩ [⟨0⟩] ⟨1⟩ :=
    .item .root List.not_mem_nil ⟨_, _, rfl, List.mem_cons_self⟩
  refine ⟨(shown _ _).mpr fun reads => ?_, rfl, ((joined _ _ rfl).2 _).mpr fun reads => ?_, met,
    looped_apart, (shared _ _ _ met looped_apart _).mpr ((shown _ _).mpr fun reads => ?_)⟩
  · rfl
  · rfl
  · rfl

end Heap

end LiveMarkup
