import LiveMarkup.Proofs.Directive.Likeness
import LiveMarkup.Proofs.Document.Subtree
import LiveMarkup.Proofs.Page.Run

/-!
# Becoming what is rendered

Binding an element makes of its tree what rendering makes of it: there is one lemma for every step of
binding, in the order in which they are taken.  The effects that are left behind have a say in what
happens afterwards only.
-/

namespace LiveMarkup

namespace World

variable {reach : Reach} {setting : Setting} {world between after : World Page} {α β : Type}

/-- Whether a page can be bound: what is reached stays in its reach, faults are kept, and the running
effects are there. -/
structure Ready (setting : Setting) (reach : Reach) (world : World Page) : Prop where
  /-- The document is a forest. -/
  forest : world.dom.Forest
  /-- Nothing gets out of the reach. -/
  calm : reach.Calm world.store.heap
  /-- There is the tracker. -/
  tracked : world.store.HasTracker reach.tracker
  /-- Whatever runs was defined. -/
  running : ∀ effect, some effect ∈ (world.store.tracker reach.tracker).stack →
    effect.index < world.bodies.size
  /-- The limit is that of the setting. -/
  limit : (world.store.tracker reach.tracker).config.maxEffectDepth = setting.limit

/-- What is left of a page in which something was rendered. -/
structure Becomes (reach : Reach) (world : World Page) (rendered : Rendered α) (after : World Page) :
    Prop where
  /-- The heap is as rendered. -/
  heap : after.store.heap = rendered.heap
  /-- Only containers were made. -/
  supplies : reach.Supplies world.store.heap after.store.heap []
  /-- There are the same trackers. -/
  trackers : after.store.trackers.size = world.store.trackers.size
  /-- The faults were reported. -/
  errors : (after.store.tracker reach.tracker).errors.toList =
    (world.store.tracker reach.tracker).errors.toList ++ rendered.faults
  /-- The tracker has its configuration. -/
  config : (after.store.tracker reach.tracker).config = (world.store.tracker reach.tracker).config
  /-- No frame was left open. -/
  stack : (after.store.tracker reach.tracker).stack = (world.store.tracker reach.tracker).stack
  /-- No effect is lost. -/
  bodies : world.bodies.size ≤ after.bodies.size

theorem Ready.tracker_modify (ready : Ready setting reach world) (change : Tracker → Tracker) :
    (world.store.modifyTracker reach.tracker change).tracker reach.tracker =
      change (world.store.tracker reach.tracker) := by
  rw [Store.tracker_modifyTracker, if_pos ⟨rfl, ready.tracked⟩]

namespace Becomes

theorem ready {rendered : Rendered α} (becomes : Becomes reach world rendered after)
    (ready : Ready setting reach world) (forest : after.dom.Forest) : Ready setting reach after where
  forest := forest
  calm := becomes.supplies.calm
  tracked := by
    rw [Store.HasTracker, becomes.trackers]
    exact ready.tracked
  running effect running :=
    Nat.lt_of_lt_of_le (ready.running effect (becomes.stack ▸ running)) becomes.bodies
  limit := becomes.config ▸ ready.limit

theorem room {rendered : Rendered α} (becomes : Becomes reach world rendered after) :
    (after.store.tracker reach.tracker).room = (world.store.tracker reach.tracker).room := by
  rw [Tracker.room, becomes.config, becomes.stack, Tracker.room]

/-- Nothing has changed that is rendered from. -/
theorem still (calm : reach.Calm world.store.heap) (after : World Page)
    (heap : after.store.heap = world.store.heap)
    (trackers : after.store.trackers = world.store.trackers)
    (bodies : world.bodies.size ≤ after.bodies.size) (a : α) :
    Becomes reach world ((pure a : Render α) world.store.heap) after := by
  have state : after.store.tracker reach.tracker = world.store.tracker reach.tracker := by
    rw [Store.tracker, trackers, Store.tracker]
  refine ⟨heap, ?_, congrArg Array.size trackers, ?_, by rw [state], by rw [state], bodies⟩
  · rw [heap]
    exact .none calm
  · rw [state]
    exact (List.append_nil _).symm

/-- Changes of the document have no say in it. -/
theorem edit {rendered : Rendered α} (becomes : Becomes reach world rendered after)
    (change : Dom Handler → Dom Handler) : Becomes reach world rendered (after.editDom change) :=
  ⟨becomes.heap, becomes.supplies, becomes.trackers, becomes.errors, becomes.config, becomes.stack,
    becomes.bodies⟩

theorem of_edit {rendered : Rendered α} {change : Dom Handler → Dom Handler}
    (becomes : Becomes reach (world.editDom change) rendered after) :
    Becomes reach world rendered after :=
  ⟨becomes.heap, becomes.supplies, becomes.trackers, becomes.errors, becomes.config, becomes.stack,
    becomes.bodies⟩

/-- A fault was reported. -/
theorem report (ready : Ready setting reach world) (fault : Fault) :
    Becomes reach world (Render.report fault world.store.heap)
      (world.mapStore fun store => store.report reach.tracker fault) := by
  have state := ready.tracker_modify fun tracker => tracker.report fault
  have errors := congrArg (fun tracker => tracker.errors.toList) state
  have config := congrArg Tracker.config state
  have stack := congrArg Tracker.stack state
  exact ⟨rfl, .none ready.calm, Store.size_modifyTracker _ _ _, errors.trans Array.toList_push, config,
    stack, Nat.le_refl _⟩

/-- Something is rendered after something else. -/
theorem trans {first : Rendered α} {second : Rendered β} (here : Becomes reach world first between)
    (later : Becomes reach between second after) {γ : Type} (result : γ) :
    Becomes reach world ⟨result, second.heap, first.faults ++ second.faults⟩ after where
  heap := later.heap
  supplies := here.supplies.append later.supplies
  trackers := later.trackers.trans here.trackers
  errors := by rw [later.errors, here.errors, List.append_assoc]
  config := later.config.trans here.config
  stack := later.stack.trans here.stack
  bodies := Nat.le_trans here.bodies later.bodies

theorem bind {first : Render α} {next : α → Render β}
    (here : Becomes reach world (first world.store.heap) between)
    (later : Becomes reach between (next (first world.store.heap).result between.store.heap) after) :
    Becomes reach world ((first >>= next) world.store.heap) after := by
  rw [here.heap] at later
  exact here.trans later _

/-- What was rendered is turned into something else. -/
theorem map {first : Render α} (becomes : Becomes reach world (first world.store.heap) after)
    (f : α → β) :
    Becomes reach world ((first >>= fun a => pure (f a)) world.store.heap) after :=
  becomes.bind (.still becomes.supplies.calm after rfl rfl (Nat.le_refl _) _)

end Becomes

/-- Where nothing is done, nothing is rendered. -/
theorem Ready.rests (ready : Ready setting reach world) (a : α) :
    Becomes reach world ((pure a : Render α) world.store.heap) world :=
  .still ready.calm world rfl rfl (Nat.le_refl _) a

/-! ## Frames -/

/-- A new effect in its frame. -/
def entering (tracker : TrackerId) (body : Task Page) (world : World Page) : World Page :=
  (world.define body).2.begin tracker ⟨world.bodies.size⟩

theorem Ready.tracker_entering (ready : Ready setting reach world) (body : Task Page) :
    (world.entering reach.tracker body).store.tracker reach.tracker =
      (world.store.tracker reach.tracker).enter (some ⟨world.bodies.size⟩) := by
  refine (Store.tracker_modifyTracker _ _ _ _).trans (if_pos ⟨rfl, ?_⟩)
  exact ready.tracked

theorem Ready.entering (ready : Ready setting reach world) (body : Task Page) :
    Ready setting reach (world.entering reach.tracker body) where
  forest := ready.forest
  calm := ready.calm
  tracked := by
    have size : (world.entering reach.tracker body).store.trackers.size = world.store.trackers.size :=
      Store.size_modifyTracker _ _ _
    rw [Store.HasTracker, size]
    exact ready.tracked
  running effect running := by
    have bodies : (world.entering reach.tracker body).bodies.size = world.bodies.size + 1 :=
      Array.size_push _
    rw [ready.tracker_entering body] at running
    rw [bodies]
    rcases List.mem_cons.mp running with new | old
    · rw [Option.some.inj new]
      exact Nat.lt_succ_self _
    · exact Nat.lt_succ_of_lt (ready.running effect old)
  limit := by
    rw [ready.tracker_entering body]
    exact ready.limit

/-- What happens in the frame of a new effect happens in the world. -/
theorem Becomes.leave {rendered : Rendered α} {body : Task Page}
    (becomes : Becomes reach (world.entering reach.tracker body) rendered after)
    (ready : Ready setting reach world) :
    Becomes reach world rendered (after.leave reach.tracker) := by
  have entered := ready.tracker_entering body
  have size : (world.entering reach.tracker body).store.trackers.size = world.store.trackers.size :=
    Store.size_modifyTracker _ _ _
  have known : after.store.HasTracker reach.tracker := by
    rw [Store.HasTracker, becomes.trackers, size]
    exact ready.tracked
  have left : (after.leave reach.tracker).store.tracker reach.tracker =
      (after.store.tracker reach.tracker).leave :=
    (Store.tracker_modifyTracker _ _ _ _).trans (if_pos ⟨rfl, known⟩)
  refine ⟨becomes.heap, becomes.supplies, ?_, ?_, ?_, ?_, ?_⟩
  · exact (Store.size_modifyTracker _ _ _).trans (becomes.trackers.trans size)
  · rw [left]
    exact becomes.errors.trans (by rw [entered]; rfl)
  · rw [left]
    exact becomes.config.trans (by rw [entered]; rfl)
  · rw [left]
    exact (congrArg List.tail becomes.stack).trans (by rw [entered]; rfl)
  · refine Nat.le_trans (Nat.le_succ _) (Nat.le_trans (Nat.le_of_eq ?_) becomes.bodies)
    exact (Array.size_push _).symm

/-! ## Effects -/

theorem Ready.refusal (ready : Ready setting reach world) (body : Task Page) :
    (world.define body).2.refusal? reach.tracker ⟨world.bodies.size⟩ =
      if (world.store.tracker reach.tracker).room = 0 then some (.depthExceeded setting.limit)
      else none := by
  have idle : (world.store.tracker reach.tracker).isRunning ⟨world.bodies.size⟩ ≠ true := by
    intro running
    have running := ready.running _ (List.contains_iff_mem.mp running)
    exact Nat.lt_irrefl _ running
  have room : (world.store.tracker reach.tracker).config.maxEffectDepth ≤
      (world.store.tracker reach.tracker).stack.length ↔
        (world.store.tracker reach.tracker).room = 0 := by
    rw [Tracker.room]
    omega
  change (if (world.store.tracker reach.tracker).isRunning ⟨world.bodies.size⟩ = true then _
    else if (world.store.tracker reach.tracker).config.maxEffectDepth ≤
      (world.store.tracker reach.tracker).stack.length then
        some (ReactiveFault.depthExceeded (world.store.tracker reach.tracker).config.maxEffectDepth)
    else none) = _
  rw [if_neg idle, ready.limit]
  rw [ready.limit] at room
  exact ite_congr (propext room) (fun _ => rfl) fun _ => rfl

/-- Without room for a frame, a new effect is reported and does nothing. -/
theorem Ready.createEffect_full (ready : Ready setting reach world)
    (full : (world.store.tracker reach.tracker).room = 0) (bound : Nat) (body : TaskM Page Value)
    (look : Look) :
    ∃ effect after,
      (TaskM.createEffect reach.tracker body).Ends (runEffect bound) world (.ok effect) after ∧
      Becomes reach world ((do
        Render.report (.reactive (.depthExceeded setting.limit))
        return look : Render Look) world.store.heap) after ∧ after.dom = world.dom := by
  have refused := ready.refusal body.toTask
  rw [if_pos full] at refused
  let defined := (world.define body.toTask).2
  have defines : Becomes reach world ((pure () : Render Unit) world.store.heap) defined := by
    refine .still ready.calm defined rfl rfl ?_ ()
    exact Nat.le_of_lt (Nat.lt_of_lt_of_eq (Nat.lt_succ_self _) (Array.size_push _).symm)
  have reports := defines.trans (Becomes.report (defines.ready ready ready.forest)
    (.reactive (.depthExceeded setting.limit))) ()
  refine ⟨_, _, .createEffect_of_refused refused, ?_, rfl⟩
  exact reports.trans (.still reports.supplies.calm _ rfl rfl (Nat.le_refl _) look) look

section Effect

variable {data : ContainerId} {bindings : Bindings} {expr : Expr} {bound : Nat}
  (suits : setting.Suits reach .same data) (plain : expr.isPlain = true)

include suits plain

/-- What is seen of an expression is its outcome. -/
theorem Ready.read (ready : Ready setting reach world) (glance : Glance)
    (holds : ∀ entry ∈ bindings.entries, reach.Holds world.store.heap entry.2) :
    ∃ store, (∀ runner, (glance.read setting.scope bindings expr).Ends runner world
        (glance.outcome setting.scope bindings expr world.store.heap).1
          { world with store := store }) ∧
      Becomes reach world (Rendered.mk () (glance.outcome setting.scope bindings expr
        world.store.heap).2 []) { world with store := store } ∧
      ∀ sight, (glance.outcome setting.scope bindings expr world.store.heap).1 = .ok sight →
        sight.Within glance reach store.heap := by
  rw [suits.scope]
  obtain ⟨store, trace, concludes, heap⟩ := glance.read_outcome suits.held plain world.store ready.calm holds
  have steady := concludes.yields.steady
  refine ⟨store, fun runner => concludes.yields.ends runner world rfl, ?_, concludes.good⟩
  exact
    { heap := heap
      supplies := ⟨concludes.calm, steady.heap, concludes.closures, concludes.events,
        fun _ listed => absurd listed List.not_mem_nil⟩
      trackers := steady.trackers
      errors := by
        rw [steady.errors]
        exact (List.append_nil _).symm
      config := steady.config _
      stack := steady.stack _
      bodies := Nat.le_refl _ }

/-- A new effect shows what rendering shows, given how it shows what it sees. -/
theorem Ready.createEffect (ready : Ready setting reach world)
    (enough : (world.store.tracker reach.tracker).room ≤ bound) {prepare : TaskM Page Unit}
    (change : Dom Handler → Dom Handler)
    (prepares : ∀ runner (world : World Page), prepare.Ends runner world (.ok ()) (world.editDom change))
    (forest : (change world.dom).Forest)
    (holds : ∀ entry ∈ bindings.entries, reach.Holds world.store.heap entry.2)
    (glance : Glance) {present : Sight → TaskM Page Value} {copy : Bindings → Tree → Render Tree}
    {template : Tree} {name : String} {look begun : Look} (shown : Dom Handler → Look → Prop)
    (stays : shown world.dom look) (prepared : shown (change world.dom) begun)
    (presents : ∀ sight (between : World Page), Ready setting reach between →
      (between.store.tracker reach.tracker).room = (world.store.tracker reach.tracker).room - 1 →
      between.dom = change world.dom → world.store.heap.Grows between.store.heap →
      sight.Within glance reach between.store.heap → ∀ less, bound = less + 1 →
        ∃ value after, (present sight).Ends (runEffect less) between (.ok value) after ∧
          Becomes reach between (Setting.renderSight copy template name bindings begun (some sight)
            between.store.heap) after ∧
          shown after.dom (Setting.renderSight copy template name bindings begun (some sight)
            between.store.heap).result) :
    ∃ effect after,
      (TaskM.createEffect reach.tracker do
        prepare
        let sight ← glance.read setting.scope bindings expr
        present sight).Ends (runEffect bound) world (.ok effect) after ∧
      Becomes reach world (setting.renderEffect copy (world.store.tracker reach.tracker).room glance
        template name bindings expr look begun world.store.heap) after ∧
      shown after.dom (setting.renderEffect copy (world.store.tracker reach.tracker).room glance
        template name bindings expr look begun world.store.heap).result := by
  let body : TaskM Page Value := do
    prepare
    let sight ← glance.read setting.scope bindings expr
    present sight
  unfold Setting.renderEffect
  by_cases full : (world.store.tracker reach.tracker).room = 0
  · rw [if_pos full]
    obtain ⟨effect, after, ends, becomes, dom⟩ :=
      ready.createEffect_full full bound body look
    exact ⟨effect, after, ends, becomes, dom ▸ stays⟩
  · have allowed := ready.refusal body.toTask
    rw [if_neg full] at allowed ⊢
    obtain ⟨less, rfl⟩ : ∃ less, bound = less + 1 := ⟨bound - 1, by omega⟩
    let entered := world.entering reach.tracker body.toTask
    let opened := entered.editDom change
    have opens := ready.entering body.toTask
    have begins : Becomes reach entered ((pure () : Render Unit) entered.store.heap) opened :=
      (opens.rests ()).edit change
    have readied := begins.ready opens forest
    obtain ⟨store, reads, looks, within⟩ := readied.read suits plain glance holds
    let seen := glance.outcome setting.scope bindings expr world.store.heap
    have sees : Becomes reach entered ⟨(), seen.2, []⟩ { opened with store := store } :=
      begins.trans looks ()
    have ended := reads (runEffect less)
    cases outcome : (glance.outcome setting.scope bindings expr world.store.heap).1 with
    | error fault =>
        have ends : body.Ends (runEffect less) entered (.error fault) { opened with store := store } :=
          (prepares _ entered).bind (outcome ▸ ended).bind_error
        have left := sees.leave ready
        have reports := left.trans (Becomes.report (left.ready ready forest) fault) begun
        have whole := Render.bind_apply (Render.see glance setting.scope bindings expr)
          (Setting.renderSight copy template name bindings begun) world.store.heap
        rw [Render.see_of_error outcome] at whole
        refine ⟨_, _, .createEffect_of_ends allowed ends, ?_, ?_⟩
        · rw [whole]
          exact { reports with heap := looks.heap }
        · rw [whole]
          exact prepared
    | ok sight =>
        have room := looks.room
        change _ = (entered.store.tracker reach.tracker).room at room
        rw [ready.tracker_entering body.toTask] at room
        obtain ⟨value, after, presented, becomes, shows⟩ := presents sight { opened with store := store }
          (looks.ready readied forest) (room.trans (Nat.sub_sub _ _ _).symm) rfl looks.supplies.grows
          (within sight outcome) less rfl
        have ends : body.Ends (runEffect less) entered (.ok value) after :=
          (prepares _ entered).bind ((outcome ▸ ended).bind presented)
        have whole := Render.bind_apply (Render.see glance setting.scope bindings expr)
          (Setting.renderSight copy template name bindings begun) world.store.heap
        rw [Render.see_of_ok outcome] at whole
        rw [looks.heap] at becomes shows
        refine ⟨_, _, .createEffect_of_ends allowed ends, ?_, ?_⟩
        · rw [whole]
          exact (sees.trans becomes _).leave ready
        · rw [whole]
          exact shows

end Effect

end World

end LiveMarkup
