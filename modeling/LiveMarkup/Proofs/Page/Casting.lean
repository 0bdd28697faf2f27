import LiveMarkup.Proofs.Expr.Dividing
import LiveMarkup.Proofs.Heap.Showing
import LiveMarkup.Proofs.Page.Dividing
import LiveMarkup.Proofs.Page.Tending

/-!
# What a repeat leaves

The effect of a `for` directive clears its host, evaluates the source and puts a copy of the
template into the host for every item, each bound with the item as the loop variable.  Whatever the
bindings of the copies do on the way, in the end the host shows these copies and nothing else.
-/

namespace LiveMarkup

theorem Heap.contents_of_array? {heap : Heap} {value : Value} {list : ContainerId}
    (array : heap.array? value = some list) :
    ∃ items named, value = .container list ∧ heap.contents list = .array items named := by
  obtain ⟨same, isArray⟩ := Heap.eq_of_array? array
  cases contents : heap.contents list with
  | array items named => exact ⟨items, named, same, rfl⟩
  | object properties =>
      rw [Heap.isArray, contents] at isArray
      cases isArray

open World

/-- A `for` directive that has been bound. -/
structure Casting where
  /-- The template and the host. -/
  mold : Mold Handler
  /-- What the copies are bound with. -/
  binder : Binder
  /-- How far down the copies are bound. -/
  depth : Nat
  /-- The loop variable. -/
  name : String
  /-- The source of the items. -/
  source : Expr
  /-- The scope around the directive. -/
  scope : Scope
  /-- The bindings around the directive. -/
  bindings : Bindings
  /-- The effect. -/
  effect : EffectId

namespace Casting

/-- The effect that fills the host. -/
def tender (casting : Casting) : Tender where
  mold := casting.mold
  effect := casting.effect
  tracker := casting.binder.tracker
  body := (Binder.stamp (casting.binder.bindWithin casting.depth) casting.mold.host
    casting.mold.template casting.name casting.source casting.scope casting.bindings).toTask

/-- The template as it was when it was taken. -/
def tree (casting : Casting) : Tree := casting.mold.origin.childTree casting.mold.template

/-- Binds a copy with an item as the loop variable. -/
def walk (casting : Casting) (copy : Child) (item : Value) : TaskM Page Unit :=
  Binder.SubtreeBinder.bindChild (casting.binder.bindWithin casting.depth) casting.scope
    (casting.bindings.insert casting.name item) copy

/-- The copies that are made for some items, and the world that this leads to.  Each copy is a copy
of the template as it was when it was taken; it is bound with its item, and then put behind the
others. -/
inductive Makes (casting : Casting) (frames : List Frame) :
    World Page → List Value → List Child → World Page → Prop
  /-- There is no further item. -/
  | none {world : World Page} : Makes casting frames world [] [] world
  /-- A copy is made for the next item. -/
  | next {world bound after : World Page} {item : Value} {items : List Value} {copy : Child}
      {copies : List Child} (template : world.dom.childTree casting.mold.template = casting.tree)
      (copied : (world.dom.copy casting.mold.template).1 = copy)
      (shows : (world.dom.copy casting.mold.template).2.childTree copy = casting.tree)
      (walked : (casting.walk copy item).Leads frames
        (world.editDom fun dom => (dom.copy casting.mold.template).2) (.ok ()) bound)
      (later : Makes casting frames (bound.editDom fun dom => dom.append casting.mold.host copy)
        items copies after) :
      Makes casting frames world (item :: items) (copy :: copies) after

/-- What a run of the effect makes of an empty host: no child if the source fails or is not an
array, and otherwise a copy for every item that the array holds at that moment. -/
inductive Fills (casting : Casting) (frames : List Frame) (world : World Page) :
    List Child → World Page → Prop
  /-- The source fails. -/
  | fault {fault : Fault} {after : World Page}
      (leads : (Expr.eval casting.scope casting.bindings casting.source).Leads frames world
        (.error fault) after) : Fills casting frames world [] after
  /-- The source is not an array. -/
  | other {value : Value} {after : World Page}
      (leads : (Expr.eval casting.scope casting.bindings casting.source).Leads frames world
        (.ok value) after)
      (noArray : after.store.heap.array? value = none) : Fills casting frames world [] after
  /-- The source is an array. -/
  | list {list : ContainerId} {items : Array Value} {named : Assoc Key Value} {copies : List Child}
      {between after : World Page}
      (leads : (Expr.eval casting.scope casting.bindings casting.source).Leads frames world
        (.ok (.container list)) between)
      (contents : between.store.heap.contents list = .array items named)
      (makes : casting.Makes frames
        (between.mapStore fun store => store.track ((between.store.heap.items list).run #[]).2)
        items.toList copies after) : Fills casting frames world copies after

end Casting

/-! ## Beside the effect -/

section Beside

variable {casting : Casting} {inventory : Inventory} {row : List Child} {frames : List Frame}
  {world : World Page} {passed : List (Point Page)} {result : Except Fault Value}
  {last : World Page}

/-- A computation that minds the row has an outcome beside the running effect, and leaves the row.
-/
theorem Tender.Tends.outcome {tender : Tender} {α : Type} {computation : TaskM Page α}
    {good : α → Prop} {next : Except Fault α → Task Page}
    (tends : tender.Tends inventory row world) (busy : tender.Busy world)
    (minds : computation.Minds tender inventory fun _ _ => True)
    (divides : computation.Divides good)
    (runs : Point.Runs ⟨frames, .task (computation next), world⟩ passed result last) :
    ∃ outcome between rest more, computation.Leads frames world outcome between ∧
      Point.Runs ⟨frames, .task (next outcome), between⟩ rest result last ∧
      inventory.Le more ∧ tender.Tends more row between ∧ tender.Busy between := by
  obtain ⟨outcome, between, rest, leads, -, runs⟩ := divides _ _ _ runs
  -- The row is left as it is whatever comes next, so let nothing come next.
  obtain ⟨_, alone⟩ := leads (fun _ => .done (.ok .undefined)) (.ends .done)
  have tended : Point.Tended tender inventory row
      ⟨frames, .task (computation fun _ => .done (.ok .undefined)), world⟩ :=
    ⟨tends, minds _ fun _ _ _ _ => trivial⟩
  obtain ⟨more, le, after⟩ := alone.tends tended busy
  exact ⟨outcome, between, rest, more, leads, runs, le, after, busy.of_extends alone.extends_⟩

end Beside

namespace Casting

variable {casting : Casting} {inventory more : Inventory} {row : List Child} {frames : List Frame}
  {world after : World Page} {passed : List (Point Page)} {result : Except Fault Value}
  {last : World Page}

theorem divides_walk (copy : Child) (item : Value) :
    (casting.walk copy item).Divides fun _ => True := by
  cases copy with
  | text content => exact TaskM.divides_pure trivial
  | element id => exact Binder.divides_bindWithin casting.binder casting.depth id _ _

theorem succeeds_walk (copy : Child) (item : Value) : (casting.walk copy item).Succeeds := by
  cases copy with
  | text content => exact TaskM.succeeds_pure ()
  | element id => exact Binder.succeeds_bindWithin casting.binder casting.depth id _ _

theorem minds_walk {copy : Child} (item : Value)
    (aside : ∀ id, copy = .element id → casting.mold.Aside inventory id) :
    (casting.walk copy item).Minds casting.tender inventory fun _ _ => True := by
  cases copy with
  | text content => exact TaskM.minds_pure trivial
  | element id =>
      exact minds_bindWithin casting.binder casting.depth _ _ (aside id rfl)

/-- A copy of the template, before it is bound. -/
theorem tends_copy (tends : casting.tender.Tends inventory row world) :
    ∃ more, inventory.Le more ∧
      casting.tender.Tends more row
        (world.editDom fun dom => (dom.copy casting.mold.template).2) ∧
      ∀ id, (world.dom.copy casting.mold.template).1 = .element id →
        casting.mold.Aside more id ∧ more.casts id ∧ Child.element id ∉ row := by
  have holds := tends.page
  let tree := world.dom.childTree casting.mold.template
  have grown := Inventory.le_grow (Nat.le_add_right inventory.size tree.count)
    fun id => id.index = inventory.size
  have copied : casting.mold.Holds (inventory.grow (inventory.size + tree.count)
      fun id => id.index = inventory.size) row (world.dom.copy casting.mold.template).2 :=
    holds.build tree _
  refine ⟨_, grown, tends.of_page grown copied, fun id same => ?_⟩
  obtain ⟨place, top, element⟩ := Dom.copy_eq_element same
  have size : world.dom.size = inventory.size := holds.size
  have positive : 0 < tree.count := by
    change 0 < (world.dom.childTree casting.mold.template).count
    rw [element]
    exact Dom.count_childTree_pos (Nat.zero_lt_of_lt holds.host_known) top
  have new : inventory.size ≤ id.index := by omega
  refine ⟨holds.aside_of_new new ?_, (Inventory.casts_grow new).mpr (by omega), fun listed => ?_⟩
  · change id.index < inventory.size + tree.count
    omega
  · have known := (holds.casts id listed).1
    omega

/-- Stamps a copy of the template for every item. -/
abbrev stampAll (casting : Casting) (items : List Value) : TaskM Page Unit :=
  Binder.stampAll (casting.binder.bindWithin casting.depth) casting.mold.host casting.mold.template
    casting.name casting.scope casting.bindings items

/-- The items are gone through one after another, and every copy is put behind those before it. -/
theorem exists_makes (items : List Value) {next : Except Fault Unit → Task Page}
    (tends : casting.tender.Tends inventory row world) (busy : casting.tender.Busy world)
    (runs : Point.Runs ⟨frames, .task (casting.stampAll items next), world⟩ passed result last) :
    ∃ copies after rest more, casting.Makes frames world items copies after ∧
      Point.Runs ⟨frames, .task (next (.ok ())), after⟩ rest result last ∧
      inventory.Le more ∧ casting.tender.Tends more (row ++ copies) after := by
  induction items generalizing inventory row world passed with
  | nil =>
      refine ⟨[], world, passed, inventory, .none, runs, .refl inventory, ?_⟩
      rw [List.append_nil]
      exact tends
  | cons item items ih =>
      rw [stampAll, Binder.stampAll_next] at runs
      obtain ⟨_, copying⟩ := runs.goes_on .survey
      obtain ⟨_, walking⟩ := copying.goes_on .alter
      obtain ⟨more, le, copied, new⟩ := tends_copy tends
      have template : world.dom.childTree casting.mold.template = casting.tree :=
        tends.page.template_eq
      have shows : (world.dom.copy casting.mold.template).2.childTree
          (world.dom.copy casting.mold.template).1 = casting.tree :=
        (Dom.childTree_build _ _).trans template
      -- While the copy is bound, the row stays as it is.
      obtain ⟨outcome, bound, _, most, leads, placing, later, kept, still⟩ := copied.outcome busy
        (minds_walk item fun id same => (new id same).1) (divides_walk _ item) walking
      obtain ⟨⟨⟩, rfl⟩ := (succeeds_walk _ item).of_leads leads
      obtain ⟨_, stamping⟩ := placing.goes_on .alter
      have placed := kept.page.append_host fun id same =>
        ⟨(new id same).1.mono later, (later.casts id (new id same).1.known).mpr (new id same).2.1,
          same ▸ (new id same).2.2⟩
      obtain ⟨copies, after, rest, final, makes, runs, onward, tends⟩ :=
        ih (kept.of_page (.refl most) placed) still stamping
      refine ⟨_ :: copies, after, rest, final, .next template rfl shows leads makes, runs,
        (le.trans later).trans onward, ?_⟩
      rw [List.append_cons]
      exact tends

/-- A run of the effect that has begun has the host to itself. -/
theorem tends_begin (tends : casting.tender.Tends inventory row world)
    (free : world.refusal? casting.binder.tracker casting.effect = none) :
    casting.tender.Tends inventory row (world.begin casting.binder.tracker casting.effect) ∧
      casting.tender.Busy (world.begin casting.binder.tracker casting.effect) := by
  have calls : Point.Calls ⟨[], .attempt casting.binder.tracker casting.effect, world⟩ _ _ :=
    .begin free
  have homes := calls.homes tends.homes fun tracker same => (Work.attempt.inj same).1.symm
  refine ⟨tends.of_store rfl rfl calls.grows.hasTracker homes, ?_⟩
  have stack := World.stack_enter world casting.binder.tracker casting.binder.tracker
    (some casting.effect)
  rw [if_pos ⟨rfl, tends.tracker⟩] at stack
  have entered : some casting.effect ∈
      ((world.enter casting.binder.tracker (some casting.effect)).store.tracker
        casting.binder.tracker).stack := by
    rw [stack]
    exact List.mem_cons_self
  exact entered

/-- What is done with the array that was found, if one was. -/
def stampArray (casting : Casting) : Option ContainerId → TaskM Page Value
  | none => return .undefined
  | some list => do
      let items ← TaskM.watch fun heap => heap.items list
      casting.stampAll items
      return .undefined

/-- The host is filled with what the value of the source holds. -/
theorem fills_of_value {value : Value} {start : World Page}
    (leads : (Expr.eval casting.scope casting.bindings casting.source).Leads frames start
      (.ok value) world)
    (tends : casting.tender.Tends inventory [] world) (busy : casting.tender.Busy world)
    (runs : Point.Runs ⟨frames, .task (casting.stampArray (world.store.heap.array? value) .done),
      world⟩ passed result last) :
    ∃ copies more, casting.Fills frames start copies last ∧ inventory.Le more ∧
      casting.tender.Tends more copies last := by
  cases array : world.store.heap.array? value with
  | none =>
      rw [array] at runs
      obtain ⟨-, -, rfl⟩ := Point.Runs.unique (.ends .done) runs
      exact ⟨[], inventory, .other leads array, .refl inventory, tends⟩
  | some list =>
      rw [array] at runs
      obtain ⟨items, named, rfl, contents⟩ := Heap.contents_of_array? array
      let reads := ((world.store.heap.items list).run #[]).2
      let stamped (items : List Value) : Task Page :=
        (casting.stampAll items >>= fun _ => pure .undefined) .done
      have read : ((world.store.heap.items list).run #[]).1 = items.toList :=
        Heap.answers_items contents #[]
      obtain ⟨_, counting⟩ := runs.goes_on .look
      obtain ⟨rest, stamping⟩ := counting.goes_on .track
      have stamping : Point.Runs ⟨frames, .task (stamped items.toList),
          world.mapStore fun store => store.track reads⟩ rest result last := by
        rw [← read]
        exact stamping
      have tracked : casting.tender.Tends inventory []
          (world.mapStore fun store => store.track reads) :=
        tends.of_store rfl rfl (Store.grows_track _ reads).hasTracker (tends.homes.track reads)
      have still : casting.tender.Busy (world.mapStore fun store => store.track reads) :=
        busy.of_extends (.mapStore (Store.grows_track _ reads) (Store.stack_tracker_track _ reads))
      obtain ⟨copies, after, _, more, makes, ends, le, filled⟩ :=
        exists_makes items.toList tracked still stamping
      obtain ⟨-, -, rfl⟩ := Point.Runs.unique (.ends .done) ends
      exact ⟨copies, more, .list leads contents makes, le, filled⟩

/-- The world in which the host is filled: it has no children. -/
def cleared (casting : Casting) (world : World Page) : World Page :=
  world.editDom fun dom => dom.clear casting.mold.host

/-- The body of the effect fills the host. -/
theorem fills (tends : casting.tender.Tends inventory row world) (busy : casting.tender.Busy world)
    (runs : Point.Runs ⟨frames, .task (world.body casting.effect), world⟩ passed result last) :
    ∃ copies more, casting.Fills frames (casting.cleared world) copies last ∧
      inventory.Le more ∧ casting.tender.Tends more copies last := by
  have body : world.body casting.effect = casting.tender.body := by
    have own : world.bodies[casting.effect.index]? = some casting.tender.body := tends.own
    rw [World.body, own]
    rfl
  rw [body] at runs
  obtain ⟨_, evaluating⟩ := runs.goes_on .alter
  have cleared : casting.tender.Tends inventory [] (casting.cleared world) :=
    tends.of_page (.refl inventory) tends.page.clear_host
  obtain ⟨outcome, evaluated, _, more, leads, looking, le, kept, still⟩ :=
    cleared.outcome busy (minds_eval _ _ _) (divides_eval _ _ _) evaluating
  cases outcome with
  | error fault =>
      obtain ⟨-, -, rfl⟩ := Point.Runs.unique (.ends .done) looking
      exact ⟨[], more, .fault leads, le, kept⟩
  | ok value =>
      obtain ⟨_, stamping⟩ := looking.goes_on .look
      obtain ⟨copies, most, fills, later, filled⟩ := fills_of_value leads kept still stamping
      exact ⟨copies, most, fills, le.trans later, filled⟩

end Casting

end LiveMarkup
