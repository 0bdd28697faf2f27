import LiveMarkup.Proofs.Document.Bubbling

/-!
# Which listeners an event calls

As long as no listener gives an element another place, an event goes up along the ancestors of its
target.  At every element it calls the listeners that wait for it when it arrives, whatever they do
to each other or to the listeners of elements further up, and after them it looks whether it goes
on.
-/

namespace LiveMarkup

namespace Dom

theorem parent_listen {ℓ : Type} (dom : Dom ℓ) (id : ElementId) (kind : String) (listener : ℓ)
    (other : ElementId) : (dom.listen id kind listener).parent other = dom.parent other := by
  rw [Dom.parent, listen, element_modify, Dom.parent]
  split <;> rfl

end Dom

namespace Stage

open World (Runner)

variable {σ ℓ : Type} (stage : Stage σ ℓ) (act : ℓ → EventId → World σ → World σ) (event : EventId)

/-! ## Listeners that leave elements in their places -/

/-- Whether no element was lost or got another parent between two worlds, and an event is still of
its kind and bubbles as before. -/
structure Stays (before after : World σ) : Prop where
  /-- No element is lost. -/
  size : (stage.dom before.surroundings).size ≤ (stage.dom after.surroundings).size
  /-- Every element has the parent that it had. -/
  parent : ∀ id : ElementId, id.index < (stage.dom before.surroundings).size →
    (stage.dom after.surroundings).parent id = (stage.dom before.surroundings).parent id
  /-- The event is of the kind it was. -/
  kind : (after.store.heap.event event).kind = (before.store.heap.event event).kind
  /-- The event bubbles if it did. -/
  bubbles : (after.store.heap.event event).bubbles = (before.store.heap.event event).bubbles

variable {stage act event} {before between after world : World σ}

theorem Stays.refl (world : World σ) : stage.Stays event world world :=
  ⟨Nat.le_refl _, fun _ _ => rfl, rfl, rfl⟩

theorem Stays.trans (first : stage.Stays event before between)
    (later : stage.Stays event between after) : stage.Stays event before after where
  size := Nat.le_trans first.size later.size
  parent id known :=
    (later.parent id (Nat.lt_of_lt_of_le known first.size)).trans (first.parent id known)
  kind := later.kind.trans first.kind
  bubbles := later.bubbles.trans first.bubbles

/-- The state of one event tells nothing of the others. -/
theorem event_amended_of_ne {other : EventId} (differs : event ≠ other) (change : Event → Event)
    (world : World σ) :
    (amended other change world).store.heap.event event = world.store.heap.event event := by
  have elsewhere : other.index ≠ event.index := by
    intro same
    cases other
    cases event
    exact differs (congrArg EventId.mk same.symm)
  change (world.store.heap.events.modify other.index change)[event.index]?.getD _ = _
  rw [Array.getElem?_modify, if_neg elsewhere, Heap.event]

theorem Stays.amended (other : EventId) {change : Event → Event}
    (kind : ∀ event, (change event).kind = event.kind)
    (bubbles : ∀ event, (change event).bubbles = event.bubbles) (world : World σ) :
    stage.Stays event world (amended other change world) := by
  have event : (Stage.amended other change world).store.heap.event event =
      world.store.heap.event event ∨
      (Stage.amended other change world).store.heap.event event =
        change (world.store.heap.event event) := by
    by_cases same : event = other
    · exact same ▸ event_amended event change world
    · exact .inl (event_amended_of_ne same change world)
  refine ⟨Nat.le_refl _, fun _ _ => rfl, ?_, ?_⟩
  · rcases event with same | changed
    · rw [same]
    · rw [changed, kind]
  · rcases event with same | changed
    · rw [same]
    · rw [changed, bubbles]

theorem Stays.calls {other : EventId}
    (stays : ∀ listener world, stage.Stays event world (act listener other world))
    (listeners : List ℓ) (world : World σ) :
    stage.Stays event world
      (listeners.foldl (fun world listener => act listener other world) world) := by
  induction listeners generalizing world with
  | nil => exact .refl world
  | cons listener rest ih => exact (stays listener world).trans (ih _)

section Flags

variable (stage event) (other : EventId) (world : World σ)

theorem Stays.opens (target : ElementId) :
    stage.Stays event world (opened other target world) := by
  refine Stays.amended other ?_ ?_ world <;> exact fun _ => rfl

theorem Stays.arrives (element : ElementId) :
    stage.Stays event world
      (Stage.amended other (fun event => { event with currentTarget := some element }) world) := by
  refine Stays.amended other ?_ ?_ world <;> exact fun _ => rfl

theorem Stays.closes : stage.Stays event world (closed other world) := by
  refine Stays.amended other ?_ ?_ world <;> exact fun _ => rfl

end Flags

/-- A listener that dispatches another event stays within these bounds, if the listeners that it
calls do. -/
theorem Stays.dispatched {other : EventId}
    (stays : ∀ listener world, stage.Stays event world (act listener other world))
    (bound : Nat) (target : ElementId) (world : World σ) :
    stage.Stays event world (stage.dispatched act other bound target world) := by
  have delivers (elements : List ElementId) (world : World σ) :
      stage.Stays event world (stage.deliver act other elements world) := by
    induction elements generalizing world with
    | nil => exact .refl world
    | cons element rest ih =>
        exact ((Stays.arrives stage event other world element).trans
          (Stays.calls stays _ _)).trans (ih _)
  exact ((Stays.opens stage event other world target).trans (delivers _ _)).trans
    (Stays.closes stage event other _)

/-! ## The course of an event -/

variable (stage act event)

/-- The listeners that wait for events of a kind at an element. -/
def held (kind : String) (element : ElementId) (world : World σ) : List ℓ :=
  (stage.dom world.surroundings).listenersFor element kind

/-- A world in which an event has come to an element and has called listeners there, one after
another. -/
def called (element : ElementId) (listeners : List ℓ) (world : World σ) : World σ :=
  listeners.foldl (fun world listener => act listener event world)
    (amended event (fun event => { event with currentTarget := some element }) world)

/-- The calls that an event of a kind makes on its way up along some elements, in their order, and
the world that they lead to.  At every element it calls those listeners that the element has when it
arrives.  Then it goes on to the next element exactly if it rises. -/
inductive Course (kind : String) :
    List ElementId → World σ → List (ElementId × ℓ) → World σ → Prop
  /-- There is no further element, or the event has been stopped, or it does not bubble. -/
  | last {element : ElementId} {above : List ElementId} {world : World σ}
      (ends : above = [] ∨
        ¬Rises event (called act event element (stage.held kind element world) world)) :
      Course kind (element :: above) world ((stage.held kind element world).map (element, ·))
        (called act event element (stage.held kind element world) world)
  /-- The event goes on. -/
  | next {element : ElementId} {above : List ElementId} {world after : World σ}
      {calls : List (ElementId × ℓ)}
      (rises : Rises event (called act event element (stage.held kind element world) world))
      (later : Course kind above (called act event element (stage.held kind element world) world)
        calls after) :
      Course kind (element :: above) world
        ((stage.held kind element world).map (element, ·) ++ calls) after

variable {stage act event}

theorem serve_eq_called (stage : Stage σ ℓ) (act : ℓ → EventId → World σ → World σ)
    {kind : String} (same : (world.store.heap.event event).kind = kind)
    (element : ElementId) :
    stage.serve act event element world =
      called act event element (stage.held kind element world) world := by
  rw [serve, called, held, same]

theorem not_rises_iff :
    ¬Rises event world ↔ ((world.store.heap.event event).propagationStopped ||
      !(world.store.heap.event event).bubbles) = true := by
  rw [Rises]
  cases (world.store.heap.event event).propagationStopped <;>
    cases (world.store.heap.event event).bubbles <;> decide

section Course

variable (stays : ∀ listener world, stage.Stays event world (act listener event world))

include stays

theorem Stays.called (element : ElementId) (listeners : List ℓ) (world : World σ) :
    stage.Stays event world (called act event element listeners world) :=
  (Stays.arrives stage event event world element).trans (Stays.calls stays listeners _)

/-- What a climb does is the course of the event along the elements that were above its start. -/
theorem exists_course {start world : World σ} (forest : (stage.dom start.surroundings).Forest)
    {element : ElementId} {path : List ElementId}
    (lineage : (stage.dom start.surroundings).Lineage element path)
    (known : element.index < (stage.dom start.surroundings).size) {bound : Nat}
    (enough : path.length < bound) (so : stage.Stays event start world) :
    ∃ calls, stage.Course act event (start.store.heap.event event).kind path world calls
      (stage.deliver act event (stage.visited act event bound (some element) world) world) := by
  induction lineage generalizing bound world with
  | @root id root =>
      obtain ⟨bound, rfl⟩ : ∃ less, bound = less + 2 := ⟨bound - 2, by simp at enough; omega⟩
      have served := serve_eq_called stage act so.kind id
      have after := so.trans (Stays.called stays id
        (stage.held (start.store.heap.event event).kind id world) world)
      have orphan := (after.parent id known).trans root
      have visits : stage.visited act event (bound + 2) (some id) world = [id] := by
        rw [visited, served, orphan]
        split <;> rfl
      rw [visits]
      change ∃ calls, Course _ _ _ _ _ _ _ (stage.serve act event id world)
      rw [served]
      exact ⟨_, .last (.inl rfl)⟩
  | @child id parent path link above ih =>
      obtain ⟨bound, rfl⟩ : ∃ less, bound = less + 1 := ⟨bound - 1, by omega⟩
      have served := serve_eq_called stage act so.kind id
      have after := so.trans (Stays.called stays id
        (stage.held (start.store.heap.event event).kind id world) world)
      have place := (after.parent id known).trans link
      by_cases rises : Rises event (Stage.called act event id
        (stage.held (start.store.heap.event event).kind id world) world)
      · have knownParent := Dom.known_of_listed ((forest.linked id parent).mp link)
        obtain ⟨calls, later⟩ := ih knownParent
          (by simpa using enough : path.length < bound) after
        have visits : stage.visited act event (bound + 1) (some id) world =
            id :: stage.visited act event bound (some parent) (Stage.called act event id
              (stage.held (start.store.heap.event event).kind id world) world) := by
          rw [visited, served, place, if_neg fun stops => not_rises_iff.mpr stops rises]
        rw [visits]
        change ∃ calls, Course _ _ _ _ _ _ _
          (stage.deliver act event _ (stage.serve act event id world))
        rw [served]
        exact ⟨_, .next rises later⟩
      · have visits : stage.visited act event (bound + 1) (some id) world = [id] := by
          rw [visited, served, if_pos (not_rises_iff.mp rises)]
        rw [visits]
        change ∃ calls, Course _ _ _ _ _ _ _ (stage.serve act event id world)
        rw [served]
        exact ⟨_, .last (.inr rises)⟩

end Course

theorem event_closed (world : World σ) :
    ((closed event world).store.heap.event event).currentTarget = none ∧
      ((closed event world).store.heap.event event).defaultPrevented =
        (world.store.heap.event event).defaultPrevented := by
  change ((world.store.heap.events.modify event.index _)[event.index]?.getD _).currentTarget = _ ∧
    ((world.store.heap.events.modify event.index _)[event.index]?.getD _).defaultPrevented = _
  rw [Array.getElem?_modify, Heap.event, if_pos rfl]
  cases world.store.heap.events[event.index]? <;> exact ⟨rfl, rfl⟩

/-- An event calls the listeners on its way in order.  If no listener gives an element another
place, a dispatch makes the calls of the course of its event along the target and its ancestors: at
each of them the listeners for its kind that the element has when the event arrives, each once, the
oldest first.  The dispatch tells whether a listener has prevented the default action by then, and
leaves the event without a current target. -/
theorem dispatch_takes_course {stage : Stage σ ℓ} {act : ℓ → EventId → World σ → World σ}
    {event : EventId} {runner : Runner σ} (behaves : stage.Behaves act runner)
    (stays : ∀ listener world, stage.Stays event world (act listener event world))
    {world : World σ} (forest : (stage.dom world.surroundings).Forest) {target : ElementId}
    (known : target.index < (stage.dom world.surroundings).size) {bound : Nat}
    (enough : (stage.dom world.surroundings).size < bound) :
    ∃ path calls last, (stage.dom world.surroundings).Lineage target path ∧ path.Nodup ∧
      stage.Course act event (world.store.heap.event event).kind path (opened event target world)
        calls last ∧
      (stage.dispatch bound target event).Ends runner world
        (.ok !(last.store.heap.event event).defaultPrevented) (closed event last) ∧
      ((closed event last).store.heap.event event).currentTarget = none := by
  obtain ⟨path, lineage⟩ := (forest.ends target).lineage
  have short := Nat.lt_of_le_of_lt (lineage.length_le forest known) enough
  obtain ⟨calls, course⟩ := exists_course stays forest lineage known short
    (Stays.opens stage event event world target)
  refine ⟨path, calls, _, lineage, lineage.nodup, course, ?_, (event_closed _).1⟩
  have ends : (stage.dispatch bound target event).Ends runner world _ _ :=
    behaves.dispatch bound target world
  rw [dispatched, (event_closed _).2] at ends
  exact ends

/-! ## A door with bells -/

/-- What a listener does: it notes that it was called, it stops the event, it hangs up another
listener that notes, or it dispatches another event at the house. -/
inductive Bell where
  | note (mark : Nat)
  | stop
  | hang (element : ElementId) (mark : Nat)
  | relay

/-- A house with a door in it, a button at the door, and what was noted. -/
structure House where
  /-- The document. -/
  dom : Dom Bell
  /-- The calls that were noted, in their order. -/
  marks : List Nat

/-- What a bell changes in the house. -/
def Bell.change : Bell → House → House
  | note mark, house => { house with marks := house.marks ++ [mark] }
  | hang element mark, house => { house with dom := house.dom.listen element "click" (.note mark) }
  | stop, house => house
  | relay, house => house

/-- The house, where no listener does anything with events. -/
def still : Stage House Bell := ⟨House.dom, fun bell _ => TaskM.alter bell.change⟩

/-- What listeners do in the house where they do nothing with events. -/
def stillAct (bell : Bell) (_ : EventId) (world : World House) : World House :=
  { world with surroundings := bell.change world.surroundings }

/-- The house. -/
def house : Stage House Bell where
  dom := House.dom
  handle bell event :=
    match bell with
    | .stop => do
        let _ ← TaskM.make (.amend event fun event => { event with propagationStopped := true })
        return ()
    | .relay => do
        let _ ← still.dispatch 4 ⟨0⟩ ⟨1⟩
        return ()
    | bell => TaskM.alter bell.change

/-- What listeners do in the house. -/
def houseAct : Bell → EventId → World House → World House
  | .stop, event, world =>
      amended event (fun event => { event with propagationStopped := true }) world
  | .relay, _, world => still.dispatched stillAct ⟨1⟩ 4 ⟨0⟩ world
  | bell, event, world => stillAct bell event world

theorem house_behaves (runner : Runner House) : house.Behaves houseAct runner := by
  have quiet : still.Behaves stillAct runner := fun bell _ world => .alter bell.change world
  intro bell event world
  cases bell with
  | note mark => exact .alter _ world
  | hang element mark => exact .alter _ world
  | stop => exact .bind (.make _ world) (.pure _ _)
  | relay => exact .bind (quiet.dispatch 4 ⟨0⟩ world) (.pure _ _)

theorem still_stays (bell : Bell) (event : EventId) (world : World House) :
    still.Stays ⟨0⟩ world (stillAct bell event world) := by
  cases bell with
  | hang element mark =>
      exact ⟨Nat.le_of_eq (Dom.size_modify _ _ _).symm, fun id _ => Dom.parent_listen _ _ _ _ id,
        rfl, rfl⟩
  | _ => exact ⟨Nat.le_refl _, fun _ _ => rfl, rfl, rfl⟩

theorem house_stays (bell : Bell) (world : World House) :
    house.Stays ⟨0⟩ world (houseAct bell ⟨0⟩ world) := by
  have same {after : World House} (stays : still.Stays ⟨0⟩ world after) :
      house.Stays ⟨0⟩ world after := ⟨stays.size, stays.parent, stays.kind, stays.bubbles⟩
  cases bell with
  | note mark => exact same (still_stays (.note mark) ⟨0⟩ world)
  | hang element mark => exact same (still_stays (.hang element mark) ⟨0⟩ world)
  | stop => refine Stays.amended ⟨0⟩ ?_ ?_ world <;> exact fun _ => rfl
  | relay => exact same (Stays.dispatched (fun bell => still_stays bell ⟨1⟩) 4 ⟨0⟩ world)

/-- A click at the button, and a ring at the house. -/
def rung : World House :=
  let button : Tree := .element "button" Assoc.empty Assoc.empty []
  let door : Tree := .element "div" Assoc.empty Assoc.empty [button]
  let built : Dom Bell := (Dom.empty.build (.element "main" Assoc.empty Assoc.empty [door])).2
  let bells : List (ElementId × String × Bell) := [(⟨0⟩, "click", .note 7), (⟨0⟩, "ring", .note 4),
    (⟨1⟩, "click", .stop), (⟨1⟩, "click", .note 3), (⟨2⟩, "click", .relay),
    (⟨2⟩, "click", .hang ⟨2⟩ 9), (⟨2⟩, "ring", .note 8), (⟨2⟩, "click", .hang ⟨1⟩ 1),
    (⟨2⟩, "click", .note 2)]
  ⟨⟨⟨#[], #[], #[.fresh "click" true, .fresh "ring" true]⟩, #[], #[]⟩,
    ⟨bells.foldl (fun dom bell => dom.listen bell.1 bell.2.1 bell.2.2) built, []⟩, #[]⟩

/-- The button calls its listeners for clicks although one of them hangs up another one there, the
door those that it has when the click arrives, the last of which was hung up from the button, and
all of them although the first one stops the click.  The house is not reached. -/
theorem rung_takes_course :
    (house.dom rung.surroundings).Forest ∧
      ∃ last, house.Course houseAct ⟨0⟩ "click" [⟨2⟩, ⟨1⟩, ⟨0⟩] (opened ⟨0⟩ ⟨2⟩ rung)
          [(⟨2⟩, .relay), (⟨2⟩, .hang ⟨2⟩ 9), (⟨2⟩, .hang ⟨1⟩ 1), (⟨2⟩, .note 2), (⟨1⟩, .stop),
            (⟨1⟩, .note 3), (⟨1⟩, .note 1)] last ∧
        last.surroundings.marks = [4, 2, 3, 1] ∧
        (house.dispatch 4 ⟨2⟩ ⟨0⟩).Ends (World.runEffect 0) rung (.ok true) (closed ⟨0⟩ last) := by
  have forest : (house.dom rung.surroundings).Forest := by
    have hung (bells : List (ElementId × String × Bell)) {dom : Dom Bell} (forest : dom.Forest) :
        (bells.foldl (fun dom bell => dom.listen bell.1 bell.2.1 bell.2.2) dom).Forest := by
      induction bells generalizing dom with
      | nil => exact forest
      | cons bell rest ih => exact ih (forest.listen _ _ _)
    exact hung _ (Dom.Forest.build _ _ Dom.empty_forest).1.forest
  obtain ⟨path, calls, last, lineage, -, course, ends, -⟩ := dispatch_takes_course
    (house_behaves (World.runEffect 0)) house_stays forest
    (show (⟨2⟩ : ElementId).index < (house.dom rung.surroundings).size by decide)
    (show (house.dom rung.surroundings).size < 4 by decide)
  have way : (house.dom rung.surroundings).Lineage ⟨2⟩ [⟨2⟩, ⟨1⟩, ⟨0⟩] :=
    .child rfl (.child rfl (.root rfl))
  obtain rfl := way.unique lineage
  refine ⟨forest, last, ?_⟩
  have taken := course
  cases course with
  | last halted =>
      refine absurd ?_ (halted.resolve_left (List.cons_ne_nil _ _))
      exact ⟨rfl, rfl⟩
  | next _ later =>
      cases later with
      | last => exact ⟨taken, rfl, ends⟩
      | next rises => exact absurd rises.1 Bool.noConfusion

end Stage

end LiveMarkup
