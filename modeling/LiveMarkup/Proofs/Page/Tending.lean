import LiveMarkup.Proofs.Page.Minding
import LiveMarkup.Proofs.Page.Sound
import LiveMarkup.Proofs.Reactive.Homing

/-!
# Runs beside a running effect

While the effect that fills a host is running, it is not entered a second time, and all other code
minds the row.  So whatever a run does then, in the end the host shows the row that it showed, and
the template is as it was.
-/

namespace LiveMarkup

namespace Tender

/-- Whether a host shows a row in a world, where all code but that of one effect minds the row. -/
structure Tends (tender : Tender) (inventory : Inventory) (row : List Child) (world : World Page) :
    Prop where
  /-- The host shows the row. -/
  page : tender.mold.Holds inventory row world.dom
  /-- The tracker of the effect is there. -/
  tracker : world.store.HasTracker tender.tracker
  /-- The effect has its body. -/
  own : world.bodies[tender.effect.index]? = some tender.body
  /-- Other effects mind the row whenever they run. -/
  others : ∀ (effect : EffectId) (body : Task Page), effect ≠ tender.effect →
    world.bodies[effect.index]? = some body → ∀ more, inventory.Le more → body.Minds tender more
  /-- No other tracker knows of the effect. -/
  homes : world.store.Homes tender.effect tender.tracker

/-- Whether the effect is running. -/
def Busy (tender : Tender) (world : World Page) : Prop :=
  some tender.effect ∈ (world.store.tracker tender.tracker).stack

variable {tender : Tender} {inventory more : Inventory} {row : List Child}
  {world after : World Page}

/-- Who has been entered is entered as long as the frames stay. -/
theorem Busy.of_extends (busy : tender.Busy world) (extends_ : world.Extends after) :
    tender.Busy after := by
  rw [Busy, extends_.stack]
  exact busy

/-- Who has been entered is not entered again. -/
theorem Busy.refused (busy : tender.Busy world) :
    world.refusal? tender.tracker tender.effect ≠ none :=
  fun free => (World.room_of_free free).1 (List.mem_filterMap.mpr ⟨_, busy, rfl⟩)

namespace Tends

/-- Nothing but the reactive state has changed. -/
theorem of_store (tends : tender.Tends inventory row world)
    (surroundings : after.surroundings = world.surroundings) (bodies : after.bodies = world.bodies)
    (trackers : after.store.HasTracker = world.store.HasTracker)
    (homes : after.store.Homes tender.effect tender.tracker) :
    tender.Tends inventory row after where
  page := by
    rw [World.dom, surroundings]
    exact tends.page
  tracker := by
    rw [trackers]
    exact tends.tracker
  own := bodies ▸ tends.own
  others effect body other given := tends.others effect body other (bodies ▸ given)
  homes := homes

theorem of_page (tends : tender.Tends inventory row world) {change : Page → Page}
    {other : List Child} (le : inventory.Le more)
    (holds : tender.mold.Holds more other (change world.surroundings).dom) :
    tender.Tends more other { world with surroundings := change world.surroundings } where
  page := holds
  tracker := tends.tracker
  own := tends.own
  others effect body other given most later :=
    tends.others effect body other given most (le.trans later)
  homes := tends.homes

/-- The effect is not the next one that is defined. -/
theorem ne_define (tends : tender.Tends inventory row world) (body : Task Page) :
    (world.define body).1 ≠ tender.effect := by
  rintro same
  have known := (Array.getElem?_eq_some_iff.mp tends.own).1
  rw [← same] at known
  exact Nat.lt_irrefl _ known

theorem define (tends : tender.Tends inventory row world) {body : Task Page}
    (minds : ∀ more, inventory.Le more → body.Minds tender more) :
    tender.Tends inventory row (world.define body).2 where
  page := tends.page
  tracker := tends.tracker
  own := by
    have known := (Array.getElem?_eq_some_iff.mp tends.own).1
    change (world.bodies.push body)[_]? = _
    rw [Array.getElem?_push_lt known, ← Array.getElem?_eq_getElem known]
    exact tends.own
  others effect other differs given := by
    change (world.bodies.push body)[_]? = _ at given
    rw [Array.getElem?_push] at given
    split at given
    · exact Option.some.inj given ▸ minds
    · exact tends.others effect other differs given
  homes := tends.homes

theorem minds_body (tends : tender.Tends inventory row world) {effect : EffectId}
    (other : effect ≠ tender.effect) : (world.body effect).Minds tender inventory := by
  rw [World.body]
  cases given : world.bodies[effect.index]? with
  | none => trivial
  | some body => exact tends.others effect body other given inventory (.refl inventory)

end Tends

end Tender

/-! ## Points -/

/-- Whether work leaves the row of the host alone. -/
def Work.Minds (tender : Tender) (inventory : Inventory) : Work Page → Prop
  | .task code => code.Minds tender inventory
  | .attempt tracker effect => effect = tender.effect → tracker = tender.tracker
  | .attempts tracker effects => tender.effect ∈ effects → tracker = tender.tracker
  | .tell _ => True

/-- Whether a host shows a row, and what is to be done leaves it alone. -/
structure Point.Tended (tender : Tender) (inventory : Inventory) (row : List Child)
    (point : Point Page) : Prop where
  /-- The host shows the row. -/
  world : tender.Tends inventory row point.world
  /-- What is to be done leaves the row alone. -/
  work : point.work.Minds tender inventory

/-- Whether what waits for a run leaves the row alone when it goes on, from an inventory on. -/
def Tender.HeededBy (tender : Tender) (inventory : Inventory)
    (resume : Except Fault Value → World Page → Point Page) : Prop :=
  ∀ outcome between more row, inventory.Le more → tender.Tends more row between →
    (resume outcome between).Tended tender more row

namespace Point

open World

variable {tender : Tender} {inventory : Inventory} {row : List Child}
  {point next callee : Point Page} {resume : Except Fault Value → World Page → Point Page}

theorem Tended.goes (tended : point.Tended tender inventory row) (goes : point.Goes next) :
    ∃ more, inventory.Le more ∧ next.Tended tender more row := by
  have homes := goes.homes tended.world.homes
  have trackers := goes.extends_.hasTracker
  obtain ⟨world, work⟩ := tended
  have same {next : Point Page} (world : tender.Tends inventory row next.world)
      (work : next.work.Minds tender inventory) :
      ∃ more, inventory.Le more ∧ next.Tended tender more row :=
    ⟨inventory, .refl inventory, world, work⟩
  cases goes with
  | look => exact same world (work _)
  | has => exact same world (work _)
  | track => exact same (world.of_store rfl rfl trackers homes) work
  | make => exact same (world.of_store rfl rfl trackers homes) (work _)
  | refuse => exact same (world.of_store rfl rfl trackers homes) (work _ _ (.refl inventory))
  | define => exact same (world.define work.1) (work.2 _ (world.ne_define _))
  | report => exact same (world.of_store rfl rfl trackers homes) work
  | drain => exact same (world.of_store rfl rfl trackers homes) (work _)
  | survey => exact same world (work row _ world.page)
  | alter =>
      obtain ⟨more, le, holds, minds⟩ := work row _ world.page
      exact ⟨more, le, world.of_page le holds, minds⟩

/-- What is called leaves the row alone unless it is the body of the effect. -/
theorem Tended.calls (tended : point.Tended tender inventory row)
    (calls : point.Calls callee resume)
    (idle : ∀ tracker, point.work ≠ .attempt tracker tender.effect) :
    callee.Tended tender inventory row := by
  have homes := calls.homes tended.world.homes fun tracker same => absurd same (idle tracker)
  have trackers := calls.grows.hasTracker
  obtain ⟨world, work⟩ := tended
  cases calls with
  | write => exact ⟨world.of_store rfl rfl trackers homes, trivial⟩
  | pop => exact ⟨world.of_store rfl rfl trackers homes, trivial⟩
  | run => exact ⟨world, work.1⟩
  | untracked => exact ⟨world.of_store rfl rfl trackers homes, work.1⟩
  | @begin _ tracker effect before =>
      have differs : effect ≠ tender.effect := fun same => idle tracker (congrArg _ same)
      have begun : tender.Tends inventory row (before.begin tracker effect) :=
        world.of_store rfl rfl trackers homes
      exact ⟨begun, world.minds_body differs⟩
  | attempts => exact ⟨world, fun same => work (same ▸ List.mem_cons_self)⟩
  | @tell _ access _ before =>
      refine ⟨world, fun member => ?_⟩
      rw [Store.dependents_eq] at member
      exact (world.homes _ (.inr ⟨access, Array.mem_toList_iff.mp member⟩))

/-- Who has called goes on with work that leaves the row alone. -/
theorem Calls.heeded (calls : point.Calls callee resume)
    (work : point.work.Minds tender inventory) :
    tender.HeededBy inventory resume := by
  intro outcome between more other le last
  have homes := calls.homes_resume last.homes outcome
  have left {tracker : TrackerId}
      (homes : (between.leave tracker).store.Homes tender.effect tender.tracker) :
      tender.Tends more other (between.leave tracker) := by
    refine last.of_store rfl rfl ?_ homes
    funext id
    exact congrArg (id.index < ·) (Store.size_modifyTracker _ _ _)
  cases calls with
  | write => exact ⟨last, work _ _ le⟩
  | pop => exact ⟨last, work _ _ le⟩
  | run => exact ⟨last, work.2 _ _ le⟩
  | untracked => exact ⟨left homes, work.2 _ _ le⟩
  | begin => exact ⟨left homes, trivial⟩
  | tell => exact ⟨last, trivial⟩
  | attempts =>
      have rest : tender.effect ∈ _ → _ := fun member => work (List.mem_cons_of_mem _ member)
      cases outcome with
      | ok value => exact ⟨last, rest⟩
      | error fault =>
          exact ⟨last.of_store rfl rfl (report_extends between _ fault).hasTracker homes, rest⟩

/-! ## Runs -/

/-- An effect that is running is not begun. -/
theorem Calls.idle_of_busy (calls : point.Calls callee resume)
    (tended : point.Tended tender inventory row) (busy : tender.Busy point.world)
    (tracker : TrackerId) : point.work ≠ .attempt tracker tender.effect := by
  intro same
  cases calls with
  | @begin _ _ _ before free =>
      obtain ⟨rfl, rfl⟩ := Work.attempt.inj same
      obtain rfl := tended.work rfl
      exact busy.refused free
  | _ => cases same

/-- What is running goes on running inside of a call. -/
theorem Calls.busy (calls : point.Calls callee resume) (busy : tender.Busy point.world) :
    tender.Busy callee.world := by
  have extends_ := calls.extends_ (.refl _) (.ok .undefined)
  have entered (world : World Page) (tracker : TrackerId) (frame : Option EffectId)
      (busy : tender.Busy world) : tender.Busy (world.enter tracker frame) := by
    rw [Tender.Busy, stack_enter]
    split
    · exact List.mem_cons_of_mem frame busy
    · exact busy
  cases calls with
  | untracked => exact entered _ _ _ busy
  | begin => exact entered _ _ _ busy
  | _ => exact busy.of_extends extends_

/-- What a run does beside the running effect leaves the row and the template. -/
theorem Runs.tends {passed : List (Point Page)} {result : Except Fault Value} {after : World Page}
    (runs : point.Runs passed result after) (tended : point.Tended tender inventory row)
    (busy : tender.Busy point.world) :
    ∃ more, inventory.Le more ∧ tender.Tends more row after := by
  induction runs generalizing inventory with
  | ends ends => exact ⟨inventory, .refl inventory, ends.world_eq ▸ tended.world⟩
  | goes goes _ ih =>
      obtain ⟨more, le, next⟩ := tended.goes goes
      obtain ⟨most, later, tends⟩ := ih next (busy.of_extends goes.extends_)
      exact ⟨most, le.trans later, tends⟩
  | @calls point callee resume _ _ outcome _ between _ calls called later ihCalled ihLater =>
      have inside := tended.calls calls (calls.idle_of_busy tended busy)
      obtain ⟨more, le, last⟩ := ihCalled inside (calls.busy busy)
      have onward := calls.heeded tended.work outcome between more row le last
      have still := busy.of_extends (calls.extends_ called.extends_ outcome)
      obtain ⟨most, later, tends⟩ := ihLater onward still
      exact ⟨most, le.trans later, tends⟩

/-- At all points of a run that is begun while the effect is running, it is running. -/
theorem Runs.busy {passed : List (Point Page)} {result : Except Fault Value} {after : World Page}
    (runs : point.Runs passed result after) (busy : tender.Busy point.world) :
    ∀ inner ∈ passed, tender.Busy inner.world :=
  (runs.keeps (fun inner => tender.Busy inner.world) (fun _ => True) (fun _ _ => trivial)
    (fun goes busy => busy.of_extends goes.extends_) (fun calls busy => calls.busy busy)
    (fun calls busy inside _ => busy.of_extends (calls.extends_ inside _)) busy).1

end Point

end LiveMarkup
