import LiveMarkup.Document.Dispatch
import LiveMarkup.Proofs.Document.Order
import LiveMarkup.Proofs.Reactive.Yield

/-!
# The way of an event

An event that bubbles goes from one element to the parent that it has when its listeners have run.
So it reaches exactly the elements that were above its target at the beginning if no listener takes
away the parent of an element before the event has gone on.  A listener that does so cuts the way
off, and the elements above are not reached.
-/

namespace LiveMarkup

namespace Dom

variable {ℓ : Type} {dom : Dom ℓ}

theorem Forest.listen (forest : dom.Forest) (id : ElementId) (kind : String) (listener : ℓ) :
    (dom.listen id kind listener).Forest :=
  forest.modify id (fun _ => rfl) fun _ => rfl

end Dom

namespace Stage

open World (Runner)

variable {σ ℓ : Type} (stage : Stage σ ℓ) (act : ℓ → EventId → World σ → World σ) (event : EventId)

/-! ## Listeners -/

/-- Whether all that listeners do, whatever it is, is told by a function on worlds.  None of them
fails. -/
def Behaves (runner : Runner σ) : Prop :=
  ∀ listener event world,
    (stage.handle listener event).Ends runner world (.ok ()) (act listener event world)

/-- A world with an event changed. -/
def amended (event : EventId) (change : Event → Event) (world : World σ) : World σ :=
  { world with store := (world.store.perform (.amend event change)).2 }

/-- A world in which an event has got its target. -/
def opened (event : EventId) (target : ElementId) : World σ → World σ :=
  amended event fun event => { event with target := some target }

/-- A world in which an event is no longer on its way. -/
def closed (event : EventId) : World σ → World σ :=
  amended event fun event => { event with currentTarget := none }

/-- What the listeners of an element do when an event arrives there: those that wait for it when it
arrives, one after another. -/
def serve (element : ElementId) (world : World σ) : World σ :=
  let kind := (world.store.heap.event event).kind
  ((stage.dom world.surroundings).listenersFor element kind).foldl
    (fun world listener => act listener event world)
    (amended event (fun event => { event with currentTarget := some element }) world)

/-- What the listeners of some elements do, one element after another. -/
def deliver (elements : List ElementId) (world : World σ) : World σ :=
  elements.foldl (fun world element => stage.serve act event element world) world

/-- Whether an event bubbles and has not been stopped. -/
def Rises (event : EventId) (world : World σ) : Prop :=
  (world.store.heap.event event).propagationStopped = false ∧
    (world.store.heap.event event).bubbles = true

/-- The elements that an event visits from an element on: of each one the listeners run, and then
the event goes on to the parent that the element has by then. -/
def visited : Nat → Option ElementId → World σ → List ElementId
  | 0, _, _ => []
  | _, none, _ => []
  | bound + 1, some element, world =>
      let served := stage.serve act event element world
      let state := served.store.heap.event event
      if state.propagationStopped || !state.bubbles then [element]
      else element :: visited bound ((stage.dom served.surroundings).parent element) served

/-- The elements that an event visits when it is dispatched. -/
def route (bound : Nat) (target : ElementId) (world : World σ) : List ElementId :=
  stage.visited act event bound (some target) (opened event target world)

/-- The world after an event was dispatched. -/
def dispatched (bound : Nat) (target : ElementId) (world : World σ) : World σ :=
  closed event (stage.deliver act event (stage.route act event bound target world)
    (opened event target world))

/-! ## Runs -/

section Runs

variable {stage act event} {runner : Runner σ} (behaves : stage.Behaves act runner)

include behaves

theorem Behaves.handleAll (listeners : List ℓ) (world : World σ) :
    (stage.handleAll event listeners).Ends runner world (.ok ())
      (listeners.foldl (fun world listener => act listener event world) world) := by
  induction listeners generalizing world with
  | nil => exact .pure () world
  | cons listener rest ih => exact (behaves listener event world).bind (ih _)

/-- The climb runs the listeners of the elements that it visits. -/
theorem Behaves.climb (bound : Nat) (start : Option ElementId) (world : World σ) :
    (stage.climb event bound start).Ends runner world (.ok ())
      (stage.deliver act event (stage.visited act event bound start world) world) := by
  induction bound generalizing start world with
  | zero => exact .pure () world
  | succ bound ih =>
      cases start with
      | none => exact .pure () world
      | some element =>
          let served := stage.serve act event element world
          refine .bind (.look _ world) (.bind (.survey _ world) (.bind (.make _ world) ?_))
          refine .bind (behaves.handleAll _ _) (.bind (.look _ _) ?_)
          change TaskM.Ends _ _ served _ _
          change TaskM.Ends _ (if (served.store.heap.event event).propagationStopped ||
              !(served.store.heap.event event).bubbles then _ else _) served _ _
          rw [visited]
          split
          · exact .pure () served
          · exact .bind (.survey _ served) (ih _ served)

/-- A dispatch runs the listeners of the elements that it visits. -/
theorem Behaves.dispatch (bound : Nat) (target : ElementId) (world : World σ) :
    (stage.dispatch bound target event).Ends runner world
      (.ok !((stage.dispatched act event bound target world).store.heap.event event).defaultPrevented)
      (stage.dispatched act event bound target world) := by
  refine .bind (.make _ world) (.bind (behaves.climb bound (some target) _) ?_)
  exact .bind (.make _ _) (.bind (.look _ _) (.pure _ _))

end Runs

/-! ## Ways that are kept -/

/-- Whether the elements of a way up, when their listeners and those below have run, still have the
parents that they have in a document. -/
def Keeps (dom : Dom ℓ) (path : List ElementId) (world : World σ) : Prop :=
  ∀ front element rest, path = front ++ element :: rest →
    (stage.dom (stage.deliver act event (front ++ [element]) world).surroundings).parent element =
      dom.parent element

section Ways

variable {stage act event} {dom : Dom ℓ}

theorem event_amended (event : EventId) (change : Event → Event) (world : World σ) :
    (amended event change world).store.heap.event event = world.store.heap.event event ∨
      (amended event change world).store.heap.event event =
        change (world.store.heap.event event) := by
  change (world.store.heap.events.modify event.index change)[event.index]?.getD _ = _ ∨
    (world.store.heap.events.modify event.index change)[event.index]?.getD _ = _
  rw [Array.getElem?_modify, Heap.event]
  cases world.store.heap.events[event.index]? with
  | none => exact .inl (by simp)
  | some present => exact .inr (by simp)

theorem Rises.amended {change : Event → Event} {world : World σ} (rises : Rises event world)
    (stopped : ∀ event, (change event).propagationStopped = event.propagationStopped)
    (bubbles : ∀ event, (change event).bubbles = event.bubbles) :
    Rises event (amended event change world) := by
  rcases event_amended event change world with same | changed
  · rw [Rises, same]
    exact rises
  · rw [Rises, changed, stopped, bubbles]
    exact rises

theorem Rises.serve {world : World σ} (rising : Rises event world) (stage : Stage σ ℓ)
    (rises : ∀ listener world, Rises event world → Rises event (act listener event world))
    (element : ElementId) :
    Rises event (stage.serve act event element world) := by
  have arrived : Rises event (Stage.amended event
      (fun event => { event with currentTarget := some element }) world) :=
    rising.amended (fun _ => rfl) fun _ => rfl
  unfold Stage.serve
  dsimp only
  generalize (stage.dom world.surroundings).listenersFor _ _ = listeners
  generalize Stage.amended event _ world = there at arrived
  induction listeners generalizing there with
  | nil => exact arrived
  | cons listener rest ih => exact ih _ (rises listener there arrived)

end Ways

/-- What a listener does: it notes that it was called, or it takes the button away. -/
inductive Deed where
  | note
  | remove

/-- A box with a button in it, and how many calls were noted. -/
structure Boxed where
  /-- The document. -/
  dom : Dom Deed
  /-- The number of calls. -/
  noted : Nat

/-- What a deed changes. -/
def Deed.change : Deed → Boxed → Boxed
  | note, boxed => { boxed with noted := boxed.noted + 1 }
  | remove, boxed => { boxed with dom := boxed.dom.detach ⟨1⟩ }

end Stage

end LiveMarkup
