import LiveMarkup.Proofs.Page.Change
import LiveMarkup.Proofs.Page.Mounting

/-!
# What becomes of a mounted page

Once a page is mounted, events arrive at its elements and run their listeners, and somebody outside
may write JSON data to the containers.  Each of these happens on the side of one root, and after it
the page is at rest again.
-/

namespace LiveMarkup

namespace Chart

variable {κ : Type} {binder : Binder} {side : ElementId → κ} {chart more : Chart binder side} {k : κ}
  {runner : World.Runner Page} {world : World Page}

/-! ## Listeners -/

section Handle

variable (runs : KeepsRuns binder side runner)

include runs

/-- A listener keeps to the side of its root and does not fail. -/
theorem Completes.handle {id : ElementId} {handler : Handler} (tracker : handler.tracker = ⟨0⟩)
    (atHome : chart.AtHome k id handler.scope handler.bindings) (event : EventId) :
    chart.Completes runner k (handler.handle event) fun _ _ => True := by
  have mark (asked : Bool) (change : Event → Event) (rest : TaskM Page Unit)
      (later : ∀ more, chart.Le more → more.Completes runner k rest fun _ _ => True)
      (more : Chart binder side) (le : chart.Le more) : more.Completes runner k
        (if asked = true then do
          let _ ← TaskM.make (.amend event change)
          rest
        else rest) fun _ _ => True := by
    split
    · exact (Completes.make_amend event change).bind fun _ _ after _ => later _ (le.trans after)
    · exact later more le
  refine mark handler.prevent _ _ (mark handler.stop _ _ fun more le => ?_) chart (.refl chart)
  let bindings := handler.bindings.insert "$event" (.event event)
  have evaluated : more.Keeps runner k (Expr.eval handler.scope bindings handler.expr)
      fun most value => most.Held k value := by
    refine .given fun _ fits => (keeping runs k).keeps_eval ?_ handler.expr
    have sees := (atHome.mono le).sees fits
    refine ⟨sees.tracker, sees.data, fun entry member => ?_⟩
    rcases Assoc.mem_put member with old | rfl
    · exact sees.bindings entry old
    · exact trivial
  rw [tracker]
  refine (Keeps.untracked evaluated).attempt.bind fun most result _ _ => ?_
  cases result with
  | ok value => exact .pure trivial
  | error fault => exact .report fault

end Handle

/-! ## Changes from outside -/

/-- Whether a heap holds, besides what was there, only what was made on a side, such as some
values. -/
def Supplies (k : κ) (chart : Chart binder side) (heap : Heap) (values : List Value) : Prop :=
  ∃ more : Chart binder side, chart.Extends more ∧ more.FitsHeap heap ∧
    ∀ value ∈ values, more.Held k value

theorem Supplies.plain {heap : Heap} (fits : chart.FitsHeap heap) {values : List Value}
    (plain : ∀ value ∈ values, value.IsPlain) : Supplies k chart heap values :=
  ⟨chart, .refl chart, fits, fun value member => held_of_isPlain (plain value member)⟩

/-- Values that were made are put into a container. -/
theorem Supplies.container {heap : Heap} {values : List Value}
    (supplies : Supplies k chart heap values) {contents : Contents}
    (within : ∀ value ∈ contents.values, value ∈ values) :
    Supplies k chart (heap.newContainer ⟨0⟩ contents).2
      [.container (heap.newContainer ⟨0⟩ contents).1] := by
  obtain ⟨more, extend, fits, held⟩ := supplies
  refine ⟨_, extend.trans (extends_withContainer fits.new_container k),
    fits.newContainer fun value member => held value (within value member), ?_⟩
  exact List.forall_mem_singleton.mpr (if_pos rfl)

/-- Things are made one after another. -/
theorem Supplies.cons {between after : Heap} {value : Value} {others : List Value}
    (first : Supplies k chart between [value])
    (rest : ∀ more : Chart binder side, more.FitsHeap between → Supplies k more after others) :
    Supplies k chart after (value :: others) := by
  obtain ⟨more, extend, fits, held⟩ := first
  obtain ⟨most, later, fitsAfter, others⟩ := rest more fits
  exact ⟨most, extend.trans later, fitsAfter, List.forall_mem_cons.mpr
    ⟨(List.forall_mem_singleton.mp held).mono later.le, others⟩⟩

mutual

/-- JSON data can be made on any side. -/
theorem supplies_ofJson : ∀ (json : Json) (chart : Chart binder side) (heap : Heap),
    chart.FitsHeap heap →
      Supplies k chart (Heap.ofJson ⟨0⟩ json heap).2 [(Heap.ofJson ⟨0⟩ json heap).1]
  | .null, _, _, fits | .bool _, _, _, fits | .integer _, _, _, fits | .float _, _, _, fits
  | .string _, _, _, fits => .plain fits (List.forall_mem_singleton.mpr trivial)
  | .array items, chart, heap, fits => by
      have supplies := supplies_ofJsonItems items chart heap fits
      have ⟨_, _, between, _⟩ := supplies
      have made : Heap.ofJson ⟨0⟩ (.array items) heap =
          ((.container (Heap.newArray ⟨0⟩ (Heap.ofJsonItems ⟨0⟩ items heap).1
              (Heap.ofJsonItems ⟨0⟩ items heap).2).1),
            (Heap.newArray ⟨0⟩ (Heap.ofJsonItems ⟨0⟩ items heap).1
              (Heap.ofJsonItems ⟨0⟩ items heap).2).2) := rfl
      rw [made, Heap.newArray_of_owner (between.foreignTo _)]
      refine supplies.container fun value member => ?_
      simpa [Contents.values, Assoc.empty] using member
  | .object members, chart, heap, fits => by
      have supplies := supplies_ofJsonMembers members chart heap fits
      have ⟨_, _, between, _⟩ := supplies
      have made : Heap.ofJson ⟨0⟩ (.object members) heap =
          ((.container (Heap.newObject ⟨0⟩ (Heap.ofJsonMembers ⟨0⟩ members heap).1
              (Heap.ofJsonMembers ⟨0⟩ members heap).2).1),
            (Heap.newObject ⟨0⟩ (Heap.ofJsonMembers ⟨0⟩ members heap).1
              (Heap.ofJsonMembers ⟨0⟩ members heap).2).2) := rfl
      rw [made, Heap.newObject_of_owner (between.foreignTo _)]
      refine supplies.container fun value member => ?_
      obtain ⟨entry, listed, rfl⟩ := List.mem_map.mp member
      exact List.mem_map.mpr ⟨entry, Assoc.mem_ofList listed, rfl⟩

theorem supplies_ofJsonItems : ∀ (items : List Json) (chart : Chart binder side) (heap : Heap),
    chart.FitsHeap heap →
      Supplies k chart (Heap.ofJsonItems ⟨0⟩ items heap).2 (Heap.ofJsonItems ⟨0⟩ items heap).1
  | [], _, _, fits => .plain fits fun _ member => absurd member List.not_mem_nil
  | item :: rest, chart, heap, fits =>
      (supplies_ofJson item chart heap fits).cons fun more => supplies_ofJsonItems rest more _

theorem supplies_ofJsonMembers : ∀ (members : List (String × Json)) (chart : Chart binder side)
    (heap : Heap), chart.FitsHeap heap →
      Supplies k chart (Heap.ofJsonMembers ⟨0⟩ members heap).2
        ((Heap.ofJsonMembers ⟨0⟩ members heap).1.map Prod.snd)
  | [], _, _, fits => .plain fits fun _ member => absurd member List.not_mem_nil
  | (_, item) :: rest, chart, heap, fits =>
      (supplies_ofJson item chart heap fits).cons fun more => supplies_ofJsonMembers rest more _

end

theorem Keeps.make_data (json : Json) :
    chart.Keeps runner k (TaskM.make (.data ⟨0⟩ json)) fun more value => more.Held k value := by
  refine .of_stores fun world fits _ => ?_
  obtain ⟨more, extend, heap, held⟩ := supplies_ofJson json chart _ fits.heap
  refine ⟨_, _, more, .make (.data ⟨0⟩ json) world, ⟨extend, heap, ?_, rfl, rfl, fun _ => rfl⟩,
    fun value same => ?_⟩
  · exact (fits.readers.mono extend.le).of_trackers fits.heap.owner heap.owner rfl
  · exact Except.ok.inj same ▸ List.forall_mem_singleton.mp held

section Changes

variable (runs : KeepsRuns binder side runner)

include runs

theorem Keeps.set {target : ContainerId} (on : chart.container target = some k) (key : Key)
    {value : Value} (held : chart.Held k value) :
    chart.Keeps runner k (TaskM.set target key value) fun _ _ => True := by
  refine (Keeps.tryWrite runs on key held).bind fun more result _ _ => ?_
  cases result with
  | ok done => exact .pure trivial
  | error fault =>
      have owner : more.Keeps runner k (TaskM.look fun heap => heap.owner target)
          fun _ owner => owner = ⟨0⟩ := .look fun _ fits => fits.owner target
      refine owner.bind fun most owner _ same => ?_
      subst same
      exact (Completes.report _).keeps

theorem Keeps.push {target : ContainerId} (on : chart.container target = some k) {value : Value}
    (held : chart.Held k value) :
    chart.Keeps runner k (TaskM.push target value) fun _ _ => True := by
  have look : chart.Keeps runner k (TaskM.look fun heap => heap.contents target)
      fun _ _ => True := .look fun _ _ => trivial
  refine look.bind fun more contents le _ => ?_
  cases contents with
  | object properties => exact .pure trivial
  | array items named =>
      exact (Keeps.set runs (le.container _ _ on) _ (held.mono le)).bind fun _ _ _ _ => .pure trivial

/-- A change keeps to the side of the container that is written to. -/
theorem Keeps.change {change : Change} (on : chart.container change.target = some k) :
    chart.Keeps runner k change.make fun _ _ => True := by
  cases change with
  | set target key json =>
      refine (Keeps.make_data json).bind fun more value le held => ?_
      exact (Keeps.set runs (le.container _ _ on) key held).bind fun _ _ _ _ => .pure trivial
  | push target json =>
      refine (Keeps.make_data json).bind fun more value le held => ?_
      exact (Keeps.push runs (le.container _ _ on) held).bind fun _ _ _ _ => .pure trivial
  | pop target => exact (Keeps.pop runs on).imp fun _ _ _ => trivial

end Changes

/-! ## What happens to a page at rest -/

/-- Events hold nothing that a chart tells of. -/
theorem Rests.events (rests : chart.Rests world) (events : Array Event) :
    chart.Rests (world.mapStore fun store =>
      { store with heap := { store.heap with events := events } }) where
  fits :=
    { heap :=
        { containers := rests.fits.heap.containers
          functions := rests.fits.heap.functions
          owner := rests.fits.heap.owner
          values := rests.fits.heap.values
          closures := rests.fits.heap.closures }
      readers := rests.fits.readers.of_trackers rests.fits.heap.owner rests.fits.heap.owner rfl
      page := rests.fits.page
      effects :=
        ⟨rests.fits.effects.bodies, rests.fits.effects.runs, rests.fits.effects.bonds⟩ }
  idle := rests.idle
  roots := rests.roots

section Rest

variable (runs : KeepsRuns binder side runner)

include runs

/-- A listener handles an event on the side of its root, and then the page is at rest again. -/
theorem Rests.handle (rests : chart.Rests world) {id : ElementId} {handler : Handler}
    (tracker : handler.tracker = ⟨0⟩) (atHome : chart.AtHome k id handler.scope handler.bindings)
    (event : EventId) :
    ∃ (after : World Page) (more : Chart binder side),
      (handler.handle event).Ends runner world (.ok ()) after ∧ more.Rests after ∧
        Spares k chart world more after := by
  obtain ⟨_, after, more, ends, fits, spares, -⟩ :=
    Completes.handle runs tracker atHome event world rests.fits (framed_of_idle rests.idle)
  exact ⟨after, more, ends, rests.spared fits spares, spares⟩

end Rest

/-- A container is written to from outside, and then the page is at rest again. -/
theorem Rests.change (tracker : binder.tracker = ⟨0⟩) (rests : chart.Rests world) {change : Change}
    (known : change.target.index < world.store.heap.containers.size) :
    ∃ more : Chart binder side, more.Rests (world.exec change.make).2 := by
  obtain ⟨k, on⟩ := Option.isSome_iff_exists.mp ((rests.fits.heap.containers _).mpr known)
  obtain ⟨result, after, more, ends, fits, spares, -⟩ :=
    Keeps.change (keepsRuns tracker world.store.room) on world rests.fits (framed_of_idle rests.idle)
  have executed : world.exec change.make = (result, after) := ends .done
  rw [executed]
  exact ⟨more, rests.spared fits spares⟩

end Chart

namespace App

/-! ## Attained worlds -/

/-- A document whose roots have been mounted. -/
def mounted (config : Config) (trees : List Tree) (top : ElementId) : App :=
  ((App.new config trees).mount top).2

/-- Whether a world comes of an app while events arrive and data is written from outside. -/
inductive Attains (app : App) : World Page → Prop
  /-- Nothing has happened yet. -/
  | start : Attains app app.world
  /-- Events come up and change on their way. -/
  | events {world : World Page} (attains : Attains app world) (events : Array Event) :
      Attains app (world.mapStore fun store =>
        { store with heap := { store.heap with events := events } })
  /-- A listener has handled an event. -/
  | handled {world after : World Page} (attains : Attains app world) {id : ElementId}
      {kind : String} {handler : Handler} {event : EventId} {bound : Nat}
      (listens : (kind, handler) ∈ (world.dom.element id).listeners)
      (ends : (handler.handle event).Ends (World.runEffect bound) world (.ok ()) after) :
      Attains app after
  /-- JSON data was written to a container, or an item was taken from it. -/
  | changed {world : World Page} (attains : Attains app world) (change : Change)
      (known : change.target.index < world.store.heap.containers.size) :
      Attains app (world.exec change.make).2

section Mounted

variable {κ : Type} {config : Config} {trees : List Tree} {top : ElementId} {world : World Page}
  (attains : (mounted config trees top).Attains world)

include attains

/-- However roots are put on sides, a mounted page is at rest whenever something has happened. -/
theorem Attains.rests (side : ElementId → κ) :
    ∃ chart : Chart (Binder.ofConfig ⟨0⟩ config) side, chart.Rests world := by
  induction attains with
  | start => exact mount_rests config trees top side
  | events _ events ih =>
      obtain ⟨chart, rests⟩ := ih
      exact ⟨chart, rests.events events⟩
  | @handled world after _ id kind handler event bound listens ends ih =>
      obtain ⟨chart, rests⟩ := ih
      have listener := rests.fits.page.listeners id _ listens
      obtain ⟨k, atHome⟩ := listener.atHome
      obtain ⟨other, more, again, restsAfter, -⟩ :=
        rests.handle (Chart.keepsRuns rfl bound) listener.tracker atHome event
      rw [(again.unique ends).2]
      exact ⟨more, restsAfter⟩
  | changed _ change known ih =>
      obtain ⟨chart, rests⟩ := ih
      exact rests.change rfl known

/-- Listeners that are there handle an event one after another. -/
theorem Attains.handleAll (event : EventId) (bound : Nat) {id : ElementId} (listeners : List Handler)
    (listen : ∀ handler ∈ listeners, ∃ kind, (kind, handler) ∈ (world.dom.element id).listeners) :
    ∃ after, (Page.stage.handleAll event listeners).Ends (World.runEffect bound) world (.ok ()) after ∧
      (mounted config trees top).Attains after := by
  induction listeners generalizing world with
  | nil => exact ⟨world, .pure () world, attains⟩
  | cons handler rest ih =>
      rw [List.forall_mem_cons] at listen
      obtain ⟨⟨kind, listens⟩, others⟩ := listen
      obtain ⟨chart, rests⟩ := attains.rests fun _ => ()
      have listener := rests.fits.page.listeners id _ listens
      obtain ⟨k, atHome⟩ := listener.atHome
      obtain ⟨between, more, ends, _, spares⟩ :=
        rests.handle (Chart.keepsRuns rfl bound) listener.tracker atHome event
      -- those that wait for their turn are still there
      obtain ⟨after, later, attained⟩ := ih (attains.handled listens ends) fun other member =>
        (others other member).imp fun _ listens => spares.heard id listens
      exact ⟨after, ends.bind later, attained⟩

/-- An event on its way up leaves one attained world after another. -/
theorem Attains.climb (event : EventId) (room bound : Nat) (start : Option ElementId) :
    ∃ after, (Page.stage.climb event bound start).Ends (World.runEffect room) world (.ok ()) after ∧
      (mounted config trees top).Attains after := by
  induction bound generalizing start world with
  | zero => exact ⟨world, .pure () world, attains⟩
  | succ bound ih =>
      cases start with
      | none => exact ⟨world, .pure () world, attains⟩
      | some element =>
          let listeners := world.dom.listenersFor element (world.store.heap.event event).kind
          have arrived : (mounted config trees top).Attains
              (Stage.amended event (fun event => { event with currentTarget := some element }) world) :=
            attains.events _
          have listen : ∀ handler ∈ listeners,
              ∃ kind, (kind, handler) ∈ (world.dom.element element).listeners := by
            intro handler member
            obtain ⟨listener, listed, rfl⟩ := List.mem_map.mp member
            exact ⟨listener.1, (List.mem_filter.mp listed).1⟩
          obtain ⟨served, handled, attained⟩ := arrived.handleAll event room listeners listen
          let state := served.store.heap.event event
          let goOn : TaskM Page Unit := do
            let parent ← TaskM.survey fun s => ((Page.stage.dom s).element element).parent
            Page.stage.climb event bound parent
          suffices left : ∃ after, TaskM.Ends (World.runEffect room)
              (if state.propagationStopped || !state.bubbles then Pure.pure () else goOn) served (.ok ())
              after ∧ (mounted config trees top).Attains after by
            obtain ⟨after, ends, attained⟩ := left
            exact ⟨after, .bind (.look _ world) (.bind (.survey _ world) (.bind (.make _ world)
              (handled.bind (.bind (.look _ served) ends)))), attained⟩
          split
          · exact ⟨served, .pure () served, attained⟩
          · obtain ⟨after, climbs, attained⟩ := ih attained (served.dom.parent element)
            exact ⟨after, .bind (.survey _ served) climbs, attained⟩

end Mounted

/-- The dispatch of an event leaves one attained world after another. -/
theorem Attains.dispatch {config : Config} {trees : List Tree} {top : ElementId} {app : App}
    (attains : (mounted config trees top).Attains app.world) (element : ElementId) (kind : String)
    (bubbles : Bool) :
    (mounted config trees top).Attains (app.dispatch element kind bubbles).2.2.world := by
  let event := (app.store.heap.newEvent (Event.fresh kind bubbles)).1
  let raised : App := { app with
    world := app.world.mapStore fun store =>
      { store with heap := (app.store.heap.newEvent (Event.fresh kind bubbles)).2 } }
  have opened : (mounted config trees top).Attains
      (Stage.opened event element raised.world) := (attains.events _).events _
  obtain ⟨climbed, climbs, attained⟩ :=
    opened.climb event raised.world.store.room (raised.dom.size + 1) (some element)
  have closed : (mounted config trees top).Attains (Stage.closed event climbed) := attained.events _
  let dispatch : TaskM Page Unit := do
    let _ ← Page.dispatch element event
    Pure.pure ()
  have dispatches : dispatch.Ends (World.runEffect raised.world.store.room) raised.world (.ok ())
      (Stage.closed event climbed) :=
    .bind (.bind (.survey _ _) (.bind (.make _ _) (climbs.bind (.bind (.make _ _) (.bind (.look _ _)
      (.pure _ _)))))) (.pure () _)
  change (mounted config trees top).Attains (raised.act dispatch).world
  rw [act_of_ends dispatches]
  exact closed

end App

end LiveMarkup
